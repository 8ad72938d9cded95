/-
# `SchemaInit.Engine.Work` — calls on one service follow the arcs

For every function that works on one service: the service it leaves is reached along
arcs, and what it does to the outside concerns that service's cgroup and sockets
(`Work`).  Several functions clear `child_pid` first and decide the state later; their
proofs keep a *base*, the service as if the process still ran, and take the arc from
there when the state is set.
-/
import SchemaInit.Engine.Moves

namespace SchemaInit.Engine

open List
open Bool (and_eq_true not_eq_true not_eq_true' or_eq_true)

variable {W : Nat → World → Prop} {K : Kind → Prop} {e : Pid1} {i : Nat} {k : Kind} {l l' l'' : Loc}
  {b s s' t : Service} {m : Nat} {w : World} {paused reporterSeen : Bool}

open Relation Loc Service

/-! ## Work -/

/-- The call got from `l` to `l'` along arcs of the service, doing only what concerns it. -/
structure Work (W : Nat → World → Prop) (K : Kind → Prop) (e : Pid1) (i : Nat) (l l' : Loc) : Prop where
  chain : Chain W K e i l.svc l'.svc
  ops : ∃ new, l'.ops = l.ops ++ new ∧
    ∀ o ∈ new, (∃ pid sig, o = .signal pid sig) ∨ (K .op ∧ OpFor e.cgroupRoot l.svc o)
  conf : l'.svc.conf = l.svc.conf
  path : l'.svc.rt.cgroupPath = [] ∨ l'.svc.rt.cgroupPath = l.svc.rt.cgroupPath ∨
    l'.svc.rt.cgroupPath = cgroupPath e.cgroupRoot l.svc.conf.name

namespace Work

theorem refl (l : Loc) : Work W K e i l l :=
  ⟨.refl, ⟨[], by simp⟩, rfl, .inr (.inl rfl)⟩

theorem opFor (h : Work W K e i l l') {o : Op} (ho : OpFor e.cgroupRoot l'.svc o) : OpFor e.cgroupRoot l.svc o := by
  cases o with
  | killTree cg =>
    rcases ho with rfl | rfl | rfl
    · exact .inl rfl
    · exact h.path
    · rw [h.conf]
      exact .inr (.inr rfl)
  | assign cg =>
    rw [OpFor, h.conf] at ho
    exact ho
  | signal _ _ => trivial
  | signalGroup _ _ => trivial
  | close _ => trivial

theorem trans (h : Work W K e i l l') (h' : Work W K e i l' l'') : Work W K e i l l'' := by
  obtain ⟨new, hnew, hn⟩ := h.ops
  obtain ⟨new', hnew', hn'⟩ := h'.ops
  refine ⟨h.chain.trans h'.chain, ⟨new ++ new', by rw [hnew', hnew, append_assoc], ?_⟩, h'.conf.trans h.conf, ?_⟩
  · intro o ho
    rcases mem_append.mp ho with ho | ho
    · exact hn o ho
    · exact (hn' o ho).imp id fun ⟨hk, ho⟩ => ⟨hk, h.opFor ho⟩
  · rcases h'.path with hp | hp | hp
    · exact .inl hp
    · rw [hp]
      exact h.path
    · rw [hp, h.conf]
      exact .inr (.inr rfl)

theorem arc (hk : K k) (ha : Arc W e i k l.svc s') (hconf : s'.conf = l.svc.conf)
    (hpath : s'.rt.cgroupPath = l.svc.rt.cgroupPath) : Work W K e i l { l with svc := s' } :=
  ⟨.single ⟨k, hk, ha⟩, ⟨[], by simp⟩, hconf, .inr (.inl hpath)⟩

theorem quiet (hhelp : K .help) (hq : s'.core = l.svc.core) : Work W K e i l { l with svc := s' } :=
  arc hhelp (.quiet hq) (congrArg Service.conf hq :) (congrArg (·.rt.cgroupPath) hq :)

theorem signal (l : Loc) (pid : Nat) (sig : Sig) : Work W K e i l (l.signal pid sig) :=
  ⟨.refl, ⟨[.signal pid sig], rfl, by simp⟩, rfl, .inr (.inl rfl)⟩

theorem killTree (hhelp : K .help) (hop : K .op) (l : Loc) : Work W K e i l l.killTree := by
  refine ⟨.single ⟨.help, hhelp, .tree⟩, ⟨[.killTree l.svc.rt.cgroupPath], rfl, ?_⟩, rfl, .inl rfl⟩
  intro o ho
  obtain rfl := mem_singleton.mp ho
  exact .inr ⟨hop, .inr (.inl rfl)⟩

theorem refresh (hk : K k) (hw : W i w) (l : Loc) (ha : LongRun (W i) l.svc → Arc W e i k l.svc l.svc.refreshed) :
    Work W K e i l { l with svc := l.svc.restartBudgetRefresh w } := by
  unfold restartBudgetRefresh
  split
  case isTrue hage => exact arc hk (ha ⟨w, hw, hage⟩) rfl rfl
  · exact refl l

theorem congr (h : Work W K e i l l') (hhelp : K .help) (hq : l''.svc.core = l'.svc.core) (hops : l''.ops = l'.ops) :
    Work W K e i l l'' := by
  have h' := h.trans (quiet hhelp hq)
  rwa [show ({ l' with svc := l''.svc } : Loc) = l'' by rw [← hops]] at h'

theorem finish {b : Service} (h : Work W K e i l { svc := b, ops := l'.ops }) (hhelp : K .help) (hk : K k)
    (ha : Arc W e i k b t) (hq : l''.svc.core = t.core) (hops : l''.ops = l'.ops) (hconf : t.conf = b.conf)
    (hpath : t.rt.cgroupPath = b.rt.cgroupPath) : Work W K e i l l'' :=
  (h.trans (arc hk ha hconf hpath)).congr hhelp hq hops

theorem reachOps (hhelp : K .help) (hk : K k) (ha : Arc W e i k l.svc t)
    (hq : l''.svc.core = t.core) {new : List Op} (hops : l''.ops = l.ops ++ new)
    (hnew : ∀ o ∈ new, (∃ pid sig, o = .signal pid sig) ∨ (K .op ∧ OpFor e.cgroupRoot l.svc o))
    (hconf : t.conf = l.svc.conf)
    (hpath : t.rt.cgroupPath = [] ∨ t.rt.cgroupPath = l.svc.rt.cgroupPath ∨
      t.rt.cgroupPath = cgroupPath e.cgroupRoot l.svc.conf.name) : Work W K e i l l'' := by
  have hcg : l''.svc.rt.cgroupPath = t.rt.cgroupPath := (congrArg (·.rt.cgroupPath) hq :)
  refine ⟨?_, ⟨new, hops, hnew⟩, (congrArg Service.conf hq :).trans hconf, by rwa [hcg]⟩
  exact (ReflTransGen.single ⟨k, hk, ha⟩).tail ⟨.help, hhelp, .quiet hq⟩

theorem reach (hhelp : K .help) (hk : K k) (ha : Arc W e i k l.svc t)
    (hq : l''.svc.core = t.core) (hops : l''.ops = l.ops) (hconf : t.conf = l.svc.conf)
    (hpath : t.rt.cgroupPath = l.svc.rt.cgroupPath) : Work W K e i l l'' :=
  (refl l).finish hhelp hk ha hq hops hconf hpath

end Work

section
variable (hhelp : K .help) (hop : K .op)
include hhelp

theorem Loc.stopCmdsBegin_work (w : World) (j phase : Nat) (l : Loc) : Work W K e i l (l.stopCmdsBegin w j phase) := by
  unfold stopCmdsBegin
  split
  · exact .refl l
  · exact .quiet hhelp rfl

theorem Loc.stopOwn_work (w : World) (j : Nat) (l : Loc) : Work W K e i l (l.stopOwn w j) := by
  unfold stopOwn
  dsimp only
  split
  · exact .refl l
  · split
    · exact l.stopCmdsBegin_work hhelp w j 1
    · exact .signal l _ _

theorem Loc.stopCmdsDone_work (w : World) (j : Nat) (l : Loc) : Work W K e i l (l.stopCmdsDone w j) := by
  have hfirst : Work W K e i l { l with svc.rt.stop.pid := 0, svc.rt.stop.phase := 0 } := .quiet hhelp rfl
  unfold stopCmdsDone
  dsimp only
  split
  · exact hfirst
  · split
    · split
      · exact hfirst.trans (.signal ..)
      · exact hfirst
    · exact hfirst.trans (stopCmdsBegin_work hhelp w j 2 _)

end

/-! ## Bases -/

/-- The call that began with `l` has come to `l'`, which is the base `b` but for the main
process and its recorded pid. -/
structure Base (W : Nat → World → Prop) (K : Kind → Prop) (e : Pid1) (i : Nat)
    (l : Loc) (b : Service) (m : Nat) (l' : Loc) :
    Prop where
  work : Work W K e i l { svc := b, ops := l'.ops }
  core : l'.svc.core = core { b with rt.childPid := 0, rt.main.pid := m }
  child : b.rt.childPid ≠ 0

namespace Base

variable (h : Base W K e i l b m l')
include h

theorem conf : l'.svc.conf = b.conf :=
  (congrArg Service.conf h.core :)

theorem flags : l'.svc.flags = b.flags :=
  (congrArg Service.flags h.core :)

theorem state : l'.svc.rt.inst.state = b.rt.inst.state :=
  (congrArg (·.rt.inst.state) h.core :)

theorem ctlKilled : l'.svc.rt.ctlKilled = b.rt.ctlKilled :=
  (congrArg (·.rt.ctlKilled) h.core :)

theorem held : l'.svc.rt.bind.held = b.rt.bind.held :=
  (congrArg (·.rt.bind.held) h.core :)

theorem path : l'.svc.rt.cgroupPath = b.rt.cgroupPath :=
  (congrArg (·.rt.cgroupPath) h.core :)

theorem listenOpen : l'.svc.rt.listen.open_ = b.rt.listen.open_ :=
  (congrArg (·.rt.listen.open_) h.core :)

theorem mainPid : l'.svc.rt.main.pid = m :=
  (congrArg (·.rt.main.pid) h.core :)

theorem quiet (hq : l''.svc.core = l'.svc.core) (hops : l''.ops = l'.ops) : Base W K e i l b m l'' :=
  ⟨by rw [hops]; exact h.work, hq.trans h.core, h.child⟩

theorem killTree (hhelp : K .help) (hop : K .op) : Base W K e i l { b with rt.cgroupPath := [] } m l'.killTree := by
  refine ⟨?_, (congrArg (fun s : Service => { s with rt.cgroupPath := [] }) h.core :), h.child⟩
  have hkill := h.work.trans (.killTree hhelp hop _)
  rw [Loc.killTree, Loc.op, ← h.path] at hkill
  exact hkill

theorem refresh (hk : K k) (hw : W i w) (ha : LongRun (W i) b → Arc W e i k b b.refreshed) :
    Base W K e i l (b.restartBudgetRefresh w) m { l' with svc := l'.svc.restartBudgetRefresh w } := by
  have hspawn : l'.svc.rt.spawnTime = b.rt.spawnTime := (congrArg (·.rt.spawnTime) h.core :)
  refine ⟨h.work.trans (.refresh hk hw _ ha), ?_, ?_⟩
  · unfold restartBudgetRefresh
    rw [hspawn]
    split
    · exact (congrArg (fun s : Service =>
        { s with rt.restartCount := 0, rt.card.next := 0, rt.card.fallbackLive := false }) h.core :)
    · exact h.core
  · unfold restartBudgetRefresh
    split <;> exact h.child

theorem finish (hhelp : K .help) (hk : K k) (ha : Arc W e i k b t)
    (hq : l''.svc.core = t.core) (hops : l''.ops = l'.ops) (hconf : t.conf = b.conf)
    (hpath : t.rt.cgroupPath = b.rt.cgroupPath) : Work W K e i l l'' :=
  h.work.finish hhelp hk ha hq hops hconf hpath

end Base

theorem Service.core_markBootReady (how : Ready) (s : Service) : (s.markBootReady how).core = s.core := by
  unfold markBootReady
  split <;> rfl

theorem Service.core_timerRearm (w : World) (s : Service) : (s.timerRearm w).core =
      core { s with rt.inst.state := .perfect, flags.timer := (s.timerRearm w).flags.timer } := by
  unfold timerRearm
  dsimp only
  split
  · rfl
  · split <;> rfl

theorem Service.listenOpen_length (h : s.listenOpen w = some t) :
    t.rt.listen.open_ = s.rt.listen.open_ ∨ t.rt.listen.open_ = s.conf.listen.length := by
  unfold listenOpen at h
  split at h
  · cases h
    exact .inl rfl
  · split at h
    · cases h
    · cases h
      exact .inr rfl

theorem Service.core_listenOpen (h : s.listenOpen w = some t) :
    t.core = core { s with rt.listen.open_ := t.rt.listen.open_ } := by
  unfold listenOpen at h
  split at h
  · cases h
    rfl
  · split at h
    · cases h
    · cases h
      rfl

theorem Service.core_spawnPrep (w : World) (s : Service) :
    (s.spawnPrep w).core = (s.cleared s.rt.listen.open_).core := by
  unfold spawnPrep
  dsimp only
  split
  · rfl
  · split
    · rfl
    · split <;> rfl

theorem Loc.quiet_stopCmdsBegin (w : World) (j phase : Nat) (l : Loc) :
    (l.stopCmdsBegin w j phase).svc.core = l.svc.core ∧ (l.stopCmdsBegin w j phase).ops = l.ops := by
  unfold stopCmdsBegin
  split <;> exact ⟨rfl, rfl⟩

theorem Service.restartBudgetRefresh_keeps (w : World) (s : Service) :
    (s.restartBudgetRefresh w).flags = s.flags ∧ (s.restartBudgetRefresh w).rt.ctlKilled = s.rt.ctlKilled ∧
      (s.restartBudgetRefresh w).rt.inst.state = s.rt.inst.state ∧
      (s.restartBudgetRefresh w).rt.childPid = s.rt.childPid := by
  unfold restartBudgetRefresh
  split <;> exact ⟨rfl, rfl, rfl, rfl⟩

theorem Loc.quiet_startFailsafe (w : World) (l : Loc) :
    (l.startFailsafe w).svc.core = l.svc.core ∧ (l.startFailsafe w).ops = l.ops := by
  unfold startFailsafe
  split
  · exact ⟨rfl, rfl⟩
  · split <;> exact ⟨rfl, rfl⟩

theorem Loc.readyLost_state (w : World) (j : Nat) (l : Loc) : (l.readyLost w j).svc.rt.inst.state ≠ .fundamental := by
  unfold readyLost
  dsimp only
  split <;> simp

theorem schemaStep_fullTrust {inst : Inst} {flags : Nat} (hst : inst.state = .fullTrust) (hflags : flags ≠ 0) :
    (schemaStep inst flags).state = .fundamental ∨ (schemaStep inst flags).state = .fullTrust := by
  simp only [schemaStep, hst, hflags, if_false]
  split
  · exact .inl rfl
  · exact .inr rfl

/-! ## The end of the main process -/

section
variable (hhelp : K .help) (hop : K .op) (hexit : K .exit)
include hhelp hop hexit

theorem Loc.reapVerdict_work (hw : W i w) (st : WaitStatus)
    (hdone : st.clean = true → (l'.svc.flags.oneshot = true ∨ l'.svc.rt.listen.open_ ≠ 0) → K .done)
    (h : Base W K e i l b 0 l') (htimer : b.flags.timer = false) : Work W K e i l (l'.reapVerdict w st) := by
  unfold reapVerdict
  dsimp only
  split
  case isTrue hidle =>
    simp only [socketIdle, and_eq_true, decide_eq_true_eq, not_eq_true', or_eq_true] at hidle
    obtain ⟨⟨⟨⟨hidle, hctl⟩, hone⟩, hwhy⟩, _⟩ := hidle
    have hopen : b.rt.listen.open_ ≠ 0 := by rwa [← h.listenOpen]
    rw [h.ctlKilled] at hctl
    rw [h.flags] at hone hwhy
    have hperfect := (congrArg (fun s : Service => { s with rt.inst.state := .perfect }) h.core :)
    rcases hwhy with hclean | hno
    · exact h.finish hhelp (hdone hclean (.inr hidle)) (.idle h.child hopen hctl hone) hperfect rfl rfl rfl
    · exact h.finish hhelp hexit (.idle h.child hopen hctl hone hno) hperfect rfl rfl rfl
  · split
    case isTrue hone =>
      obtain ⟨hclean, hone⟩ := Bool.and_eq_true_iff.mp hone
      refine h.finish hhelp (hdone hclean (.inl hone)) (.oneshot h.child (by rwa [← h.flags]) htimer) ?_ rfl rfl rfl
      rw [core_markBootReady]
      exact (congrArg (fun s : Service => { s with rt.inst.state := .perfect }) h.core :)
    · split
      case isTrue hno =>
        rw [h.flags] at hno
        have hexcised : Work W K e i l { l' with
            svc.rt.inst.state := .excised, svc.rt.exciseReason := l'.svc.exciseReasonFromExit } :=
          h.finish hhelp hexit (.noRestart h.child hno l'.svc.exciseReasonFromExit) (congrArg (fun s : Service =>
              { s with rt.inst.state := .excised, rt.exciseReason := l'.svc.exciseReasonFromExit }) h.core :) rfl rfl rfl
        exact hexcised.trans (.killTree hhelp hop _)
      case isFalse hno =>
        rw [h.flags, not_eq_true] at hno
        split
        case isTrue hctl =>
          rw [h.ctlKilled] at hctl
          split
          · have h' := h.killTree hhelp hop
            exact h'.finish hhelp hexit (.ctlRestart h.child hno hctl)
              (congrArg (fun s : Service => { s with rt.inst.state := .newProcess }) h'.core :) rfl rfl rfl
          · exact h.finish hhelp hexit (.ctlRestart h.child hno hctl)
              (congrArg (fun s : Service => { s with rt.inst.state := .newProcess }) h.core :) rfl rfl rfl
        case isFalse hctl =>
          rw [h.ctlKilled, not_eq_true] at hctl
          have h' := (h.refresh hexit hw (.refresh · h.child)).quiet
            (quiet_startFailsafe w _).1 (quiet_startFailsafe w _).2
          refine h'.finish hhelp hexit (.died h'.child (by rw [(restartBudgetRefresh_keeps ..).1, hno])
            (by rw [(restartBudgetRefresh_keeps ..).2.1, hctl])) ?_ rfl rfl rfl
          exact (congrArg (fun s : Service => { s with rt.inst.state := .recovery }) h'.core :)

omit hop in
theorem Loc.timerDone_work (h : Base W K e i l b 0 l') (htimer : l'.svc.flags.timer = true) :
    Work W K e i l { l' with svc := l'.svc.timerRearm w } := by
  rw [h.flags] at htimer
  refine h.finish hhelp hexit (.timer h.child htimer (l'.svc.timerRearm w).flags.timer) ?_ rfl rfl rfl
  rw [core_timerRearm]
  exact (congrArg (fun s : Service =>
    { s with rt.inst.state := .perfect, flags.timer := (l'.svc.timerRearm w).flags.timer }) h.core :)

omit hop in
theorem Loc.forkAdopt_work {st : WaitStatus} (h : Base W K e i l b 0 l')
    (hover : l'.svc.handsOver st = true) : Work W K e i l { l' with svc := l'.svc.forkAdopt w } := by
  simp only [handsOver, and_eq_true, not_eq_true', decide_eq_true_eq, h.conf, h.state, h.ctlKilled] at hover
  obtain ⟨⟨⟨⟨hfile, hfork⟩, hst⟩, hctl⟩, _⟩ := hover
  have hfile : b.conf.pidFile ≠ [] := by simpa using hfile
  unfold forkAdopt
  by_cases hp : l'.svc.pidFileRead w ≠ 0
  · simp only [if_pos hp]
    exact h.finish hhelp hexit (.forkAdopt _ hp h.child hfile hst hctl)
      (congrArg (fun s : Service => { s with rt.childPid := l'.svc.pidFileRead w, rt.fork.state := 1 }) h.core :) rfl rfl rfl
  · simp only [if_neg hp, if_pos hfork]
    exact h.finish hhelp hexit (.forkWait h.child hfile hst hctl)
      (congrArg (fun s : Service => { s with rt.fork.state := -1 }) h.core :) rfl rfl rfl

theorem Loc.reapExited_work (hw : W i w) (j : Nat) (st : WaitStatus) {l0 : Loc}
    (hdone : l0.svc.succeeds st = true → K .done) (hlost : st.clean = true → l0.svc.rt.cgroupPath = [] → K .lost)
    (h0 : Base W K e i l b 0 l0) : Work W K e i l (l0.reapExited w j st) := by
  unfold reapExited
  by_cases hover : l0.svc.handsOver st = true
  · simp only [hover, Bool.not_true, Bool.false_and, Bool.false_eq_true, if_false, if_true]
    split
    case isTrue htimer => exact (timerDone_work hhelp hexit h0 htimer).trans (stopCmdsBegin_work hhelp w j 2 _)
    · split
      case isTrue hcg =>
        have hover' := hover
        simp only [Service.handsOver, and_eq_true, not_eq_true', decide_eq_true_eq, h0.conf, h0.state,
          h0.ctlKilled] at hover'
        obtain ⟨⟨⟨⟨hfile, _⟩, hst⟩, hctl⟩, hclean⟩ := hover'
        have hnone := isEmpty_iff.mp hcg
        refine h0.finish hhelp (hlost hclean hnone) (.fork h0.child (by simpa using hfile) hst hctl ?_) ?_ rfl rfl rfl
        · rwa [← h0.path]
        exact (congrArg (fun s : Service =>
          { s with rt.inst.state := .excised, rt.exciseReason := .noCgroup }) h0.core :)
      · exact forkAdopt_work hhelp hexit h0 hover
  · simp only [hover, Bool.not_false, Bool.true_and, Bool.false_eq_true, if_false]
    -- the tree may go before the verdict
    obtain ⟨b', hflags, hlisten, h1⟩ : ∃ b', b'.flags = b.flags ∧ b'.rt.listen.open_ = b.rt.listen.open_ ∧
        Base W K e i l b' 0 (if (!l0.svc.rt.cgroupPath.isEmpty && w.hasChildren l0.svc.rt.cgroupPath) = true
          then l0.killTree else l0) := by
      split
      · exact ⟨{ b with rt.cgroupPath := [] }, rfl, rfl, h0.killTree hhelp hop⟩
      · exact ⟨b, rfl, rfl, h0⟩
    generalize (if (!l0.svc.rt.cgroupPath.isEmpty && w.hasChildren l0.svc.rt.cgroupPath) = true
      then l0.killTree else l0) = l1 at h1 ⊢
    have hl1 : l1.svc.flags = l0.svc.flags := by rw [h1.flags, hflags, h0.flags]
    split
    case isTrue htimer =>
      exact (timerDone_work hhelp hexit h1 (by rwa [hl1])).trans (stopCmdsBegin_work hhelp w j 2 _)
    case isFalse htimer =>
      rw [h0.flags, not_eq_true] at htimer
      refine (reapVerdict_work hhelp hop hexit hw st ?_ h1 (by rwa [hflags])).trans (stopCmdsBegin_work hhelp w j 2 _)
      intro hclean hwhy
      refine hdone ?_
      rw [h1.flags, hflags, h1.listenOpen, hlisten, ← h0.flags, ← h0.listenOpen] at hwhy
      simp [Service.succeeds, hclean, hover, hwhy]

theorem Loc.reapRest_work (hw : W i w) (j : Nat) (st : WaitStatus) {m : Nat}
    (hdone : l'.svc.succeeds st = true → K .done) (hlost : st.clean = true → l'.svc.rt.cgroupPath = [] → K .lost)
    (h : Base W K e i l b m l') :
    Work W K e i l (l'.reapRest w j st) :=
  reapExited_work hhelp hop hexit hw j st hdone hlost
    ⟨h.work, (congrArg (fun s : Service => { s with rt.main.pid := 0 }) h.core :), h.child⟩

omit hop in
theorem Loc.reapLauncher_work (j : Nat) {pid : Nat} (hlost : l'.svc.rt.cgroupPath = [] → K .lost)
    (h : Base W K e i l b b.rt.main.pid l')
    (hlaunched : l'.svc.launched pid = true) : Work W K e i l (l'.reapLauncher w j) := by
  simp only [launched, and_eq_true, not_eq_true', h.flags, h.ctlKilled] at hlaunched
  obtain ⟨⟨⟨⟨⟨hmain, _⟩, hctl⟩, hkind⟩, _⟩, _⟩ := hlaunched
  have htimer : b.flags.timer = false := (Bool.or_eq_false_iff.mp hkind).1
  unfold reapLauncher
  dsimp only
  split
  case isTrue hcg =>
    have hnone := isEmpty_iff.mp hcg
    have hexcised : Work W K e i l { l' with svc.rt.inst.state := .excised, svc.rt.exciseReason := .noCgroup } :=
      h.finish hhelp (hlost hnone) (.launcher h.child hmain hctl (by rwa [← h.path]))
        (congrArg (fun s : Service => { s with rt.inst.state := .excised, rt.exciseReason := .noCgroup }) h.core :)
        rfl rfl rfl
    exact hexcised.trans (stopCmdsBegin_work hhelp w j 2 _)
  · split
    case isTrue hadopt =>
      simp only [and_eq_true, decide_eq_true_eq, h.mainPid] at hadopt
      refine h.finish hhelp hexit (.launcherAdopt h.child hmain hctl hadopt.1.1) ?_ rfl rfl rfl
      rw [h.mainPid]
      exact (congrArg (fun s : Service =>
        { s with rt.childPid := b.rt.main.pid, rt.main.pid := b.rt.main.pid, rt.main.wait := false }) h.core :)
    · exact h.finish hhelp hexit (.launcherAwait h.child hmain hctl htimer)
        (congrArg (fun s : Service => { s with rt.main.pid := 0, rt.main.wait := true }) h.core :) rfl rfl rfl

omit hhelp hop in
theorem Loc.bindDeath_base (table : List Service) (st : WaitStatus) (hchild : l.svc.rt.childPid ≠ 0) :
    ∃ b, Base W K e i l b b.rt.main.pid
      { l with svc := (noteExit st { l.svc with rt.childPid := 0 }).bindDeath w table } := by
  unfold bindDeath
  split
  · exact ⟨l.svc, .refl l, rfl, hchild⟩
  case isFalse hnot =>
    simp only [or_eq_true, not_or, not_eq_true] at hnot
    obtain ⟨⟨hname, hheld⟩, hctl⟩ := hnot
    have hname : l.svc.conf.bindName ≠ [] := by simpa [noteExit] using hname
    split
    · exact ⟨_, .arc hexit (.hold hname hheld hctl hchild) rfl rfl, rfl, hchild⟩
    · split
      · exact ⟨_, .arc hexit (.mark w.now hname hheld hctl hchild) rfl rfl, rfl, hchild⟩
      · exact ⟨l.svc, .refl l, rfl, hchild⟩

omit hhelp hop hexit in
theorem Service.bindDeath_keeps (w : World) (table : List Service) (st : WaitStatus) (s : Service) :
    ((noteExit st { s with rt.childPid := 0 }).bindDeath w table).succeeds st = s.succeeds st ∧
      ((noteExit st { s with rt.childPid := 0 }).bindDeath w table).rt.cgroupPath = s.rt.cgroupPath := by
  unfold bindDeath
  split
  · exact ⟨rfl, rfl⟩
  · split
    · exact ⟨rfl, rfl⟩
    · split <;> exact ⟨rfl, rfl⟩

theorem Loc.reapMain_work (hw : W i w) (table : List Service) (j pid : Nat) (st : WaitStatus)
    (hdone : l.svc.succeeds st = true → K .done) (hlost : st.clean = true → l.svc.rt.cgroupPath = [] → K .lost)
    (hchild : l.svc.rt.childPid ≠ 0) : Work W K e i l (l.reapMain w table j pid st) := by
  obtain ⟨b, hb⟩ := bindDeath_base hexit table st hchild
  unfold reapMain
  dsimp only
  rw [← (bindDeath_keeps w table st l.svc).1] at hdone
  rw [← (bindDeath_keeps w table st l.svc).2] at hlost
  generalize (noteExit st { l.svc with rt.childPid := 0 }).bindDeath w table = s at hb hdone hlost ⊢
  split
  case isTrue hheld =>
    have hheld : b.rt.bind.held = true := by rw [← hb.held, hheld]
    have hexcised : Work W K e i l { l with
        svc := { s with rt.inst.state := .excised, rt.exciseReason := .bind, rt.main.wait := false } } :=
      hb.finish hhelp hexit (.bound hb.child hheld) (congrArg (fun s : Service =>
          { s with rt.inst.state := .excised, rt.exciseReason := .bind, rt.main.wait := false }) hb.core :) rfl rfl rfl
    exact (hexcised.trans (.killTree hhelp hop _)).trans (stopCmdsBegin_work hhelp w j 2 _)
  · split
    case isTrue hlaunched =>
      split
      case isTrue hclean => exact reapLauncher_work hhelp hexit j (hlost hclean) hb hlaunched
      case isFalse hclean =>
        exact reapRest_work hhelp hop hexit hw j st hdone (fun h => absurd h hclean) (hb.killTree hhelp hop)
    · exact reapRest_work hhelp hop hexit hw j st hdone hlost hb

end

/-! ## Ticks -/

section
variable (hhelp : K .help) (hop : K .op)
include hhelp hop

theorem Loc.activeKillService_base (hw : W i w) (j : Nat) (htick : K .tick) (hchild : l.svc.rt.childPid ≠ 0) :
    ∃ b, Base W K e i l b b.rt.main.pid (l.activeKillService w j) ∧ b.rt.inst.state = l.svc.rt.inst.state ∧
      b.flags = l.svc.flags ∧ b.rt.ctlKilled = l.svc.rt.ctlKilled := by
  have hgone : ∀ (l' : Loc) (st : WaitStatus), l'.svc = l.svc.restartBudgetRefresh w → Work W K e i l l' →
      Base W K e i l { l.svc.restartBudgetRefresh w with rt.cgroupPath := [] }
        (l.svc.restartBudgetRefresh w).rt.main.pid
        (l'.childGone w j st) := by
    intro l' st hsvc hwork
    have hbase : Base W K e i l l'.svc l'.svc.rt.main.pid
        { l' with svc := { noteExit st l'.svc with rt.childPid := 0 } } := by
      refine ⟨hwork, rfl, ?_⟩
      rw [hsvc, (restartBudgetRefresh_keeps ..).2.2.2]
      exact hchild
    rw [← hsvc]
    exact (hbase.killTree hhelp hop).quiet (quiet_stopCmdsBegin w j 2 _).1 (quiet_stopCmdsBegin w j 2 _).2
  refine ⟨{ l.svc.restartBudgetRefresh w with rt.cgroupPath := [] }, ?_, (restartBudgetRefresh_keeps w _).2.2.1,
    (restartBudgetRefresh_keeps w _).1, (restartBudgetRefresh_keeps w _).2.1⟩
  have hterm := (Work.refresh (e := e) htick hw l (.refresh · (.inl hchild))).trans (.signal _ l.svc.rt.childPid .term)
  unfold activeKillService
  rw [if_neg hchild]
  split
  · exact hgone _ _ rfl hterm
  · exact hgone _ _ rfl (hterm.trans (.signal ..))

variable (htick : K .tick)
include htick

theorem Loc.readyLost_work (hw : W i w) (j : Nat) (hst : l.svc.rt.inst.state = .fundamental)
    (hchild : l.svc.rt.childPid ≠ 0) (hctl : l.svc.rt.ctlKilled = false) (hpath : l.svc.conf.readyPath ≠ []) :
    Work W K e i l (l.readyLost w j) := by
  obtain ⟨b, hb, hbst, hbflags, hbctl⟩ := activeKillService_base (e := e) hhelp hop hw j htick hchild
  rw [hst] at hbst
  rw [hctl] at hbctl
  have hbpath : b.conf.readyPath ≠ [] := by rw [hb.work.conf]; exact hpath
  unfold readyLost
  dsimp only
  split
  case isTrue hno =>
    rw [hb.flags] at hno
    exact hb.finish hhelp htick (.readyExcised hbst hb.child hbctl hbpath hno)
      (congrArg (fun s : Service => { s with rt.inst.state := .excised, rt.exciseReason := .readinessLost }) hb.core :)
      rfl rfl rfl
  case isFalse hno =>
    rw [hb.flags, not_eq_true] at hno
    have hb' := hb.quiet (quiet_startFailsafe w _).1 (quiet_startFailsafe w _).2
    exact hb'.finish hhelp htick (.readyLost hbst hb.child hbctl hbpath hno)
      (congrArg (fun s : Service => { s with rt.inst.state := .recovery }) hb'.core :) rfl rfl rfl

theorem Loc.readyRecheck_work (hw : W i w) (j : Nat) : Work W K e i l (l.readyRecheck w j) := by
  unfold readyRecheck
  dsimp only
  split
  · exact .refl l
  case isFalse hlive =>
    simp only [or_eq_true, not_eq_true', not_or, Bool.not_eq_false, readyLive, and_eq_true,
      decide_eq_true_eq] at hlive
    obtain ⟨⟨⟨⟨⟨⟨hst, hpath⟩, hchild⟩, hctl⟩, _⟩, _⟩, _⟩ := hlive
    split
    · exact readyLost_work hhelp hop htick hw j hst (by omega) hctl (by simpa using hpath)
    · exact .quiet hhelp rfl

omit hop in
theorem Loc.tickPromote_work {flags : Nat} (hflags : flags ≠ 0)
    (hst : l.svc.rt.inst.state = .fullTrust) : Work W K e i l (l.tickPromote w reporterSeen flags) := by
  unfold tickPromote
  dsimp only
  split
  · exact .refl l
  case isFalse hready =>
    simp only [or_eq_true, decide_eq_true_eq, not_or] at hready
    rcases schemaStep_fullTrust hst hflags with hvote | hvote
    · -- promoted
      simp only [schemaStep, hvote, reduceCtorEq, if_false, ne_eq, not_false_eq_true, if_true]
      refine .reach hhelp htick (.promote hst hready.1.2) ?_ rfl rfl rfl
      rw [core_markBootReady]
      exact (congrArg (fun st : State => core { l.svc with rt.inst.state := st }) hvote :)
    · simp only [schemaStep, hvote, reduceCtorEq, if_false, ne_eq, not_true_eq_false]
      refine .quiet hhelp ?_
      exact (congrArg (fun st : State => core { l.svc with rt.inst.state := st }) (hvote.trans hst.symm) :)

theorem Loc.startTimeout_work (hw : W i w) (j : Nat)
    (hst : l.svc.rt.inst.state = .fullTrust) (hlate : l.svc.startTimedOut w paused = true) :
    Work W K e i l (l.startTimeout w j) := by
  simp only [startTimedOut, and_eq_true, decide_eq_true_eq] at hlate
  obtain ⟨⟨⟨⟨hsecs, hchild⟩, _⟩, _⟩, _⟩ := hlate
  obtain ⟨b, hb, hbst, hbflags, _⟩ := activeKillService_base (e := e) hhelp hop hw j htick (l := l) (by omega)
  have hb := hb.quiet (quiet_startFailsafe w _).1 (quiet_startFailsafe w _).2
  rw [hst] at hbst
  have hbsecs : b.conf.startTimeoutSec > 0 := by rw [hb.work.conf]; exact hsecs
  unfold startTimeout
  dsimp only
  split
  case isTrue hexcise =>
    simp only [and_eq_true, not_eq_true', hb.flags, hb.conf] at hexcise
    exact hb.finish hhelp htick (.startTimeout hbst hb.child hbsecs hexcise.1 hexcise.2)
      (congrArg (fun s : Service => { s with rt.inst.state := .excised, rt.exciseReason := .startTimeout }) hb.core :)
      rfl rfl rfl
  case isFalse hkeep =>
    simp only [and_eq_true, not_eq_true', hb.flags, hb.conf, not_and_or, Bool.not_eq_false] at hkeep
    exact hb.finish hhelp htick (.startRetry hbst hb.child hbsecs hkeep)
      (congrArg (fun s : Service => { s with rt.inst.state := .recovery }) hb.core :) rfl rfl rfl

theorem Loc.tickFork_work (hw : W i w) (hst : l.svc.rt.inst.state = .fullTrust)
    (hfork : l.svc.rt.fork.state < 0) : Work W K e i l (l.tickFork w) := by
  have hne : l.svc.rt.fork.state ≠ 0 := by omega
  unfold tickFork forkAdopt
  by_cases hp : l.svc.pidFileRead w ≠ 0
  · simp only [if_pos hp]
    rw [if_neg (by simp)]
    exact .arc htick (.forkAdopt hst hfork _ hp) rfl rfl
  · simp only [if_neg hp, if_neg hne]
    split
    · -- the budget is refreshed while the file is still waited for
      have hrest : Work W K e i l (killTree { l with svc := l.svc.restartBudgetRefresh w }) :=
        (Work.refresh htick hw l (.refresh · (.inr hfork))).trans (.killTree hhelp hop _)
      have hst' : (l.svc.restartBudgetRefresh w).rt.inst.state = .fullTrust := by
        rw [(restartBudgetRefresh_keeps ..).2.2.1, hst]
      have hfork' : (l.svc.restartBudgetRefresh w).rt.fork.state < 0 := by
        unfold restartBudgetRefresh
        split <;> exact hfork
      refine (hrest.trans (.arc htick (.forkMissing hst' hfork') rfl rfl)).congr hhelp ?_ ?_
      · refine (congrArg (fun s : Service => { s with rt.inst.state := .recovery })
          (quiet_startFailsafe w _).1 :).trans ?_
        dsimp only [restartBudgetRefresh, killTree, op]
        split <;> rfl
      · refine (quiet_startFailsafe w _).2.trans ?_
        dsimp only [restartBudgetRefresh, killTree, op]
        split <;> rfl
    · exact .refl l

theorem Loc.tickFullTrust_work (hw : W i w) {flags : Nat} (hflags : flags ≠ 0)
    (j : Nat) (hst : l.svc.rt.inst.state = .fullTrust) :
    Work W K e i l (l.tickFullTrust w paused reporterSeen flags j) := by
  unfold tickFullTrust
  split
  case isTrue hlate => exact startTimeout_work hhelp hop htick hw j hst hlate
  · split
    case isTrue hfork => exact tickFork_work hhelp hop htick hw hst hfork
    · exact tickPromote_work hhelp htick hflags hst

theorem Loc.tickReadyPoll_work (hw : W i w) (j : Nat) (hst : l.svc.rt.inst.state = .fundamental)
    (hchild : l.svc.rt.childPid ≠ 0) (hctl : l.svc.rt.ctlKilled = false) (hpath : l.svc.conf.readyPath ≠ []) :
    Work W K e i l (l.tickReadyPoll w j) := by
  unfold tickReadyPoll
  dsimp only
  split
  · split
    · have hzero : Work W K e i l { l with svc.readyCheckTicks := 0 } := .quiet hhelp rfl
      split
      · exact hzero.trans (readyLost_work hhelp hop htick hw j hst hchild hctl hpath)
      · exact hzero
    · exact .quiet hhelp rfl
  · split
    · exact readyLost_work hhelp hop htick hw j hst hchild hctl hpath
    · exact .refl l

theorem Loc.tickFundamental_work (hw : W i w) (j : Nat) (hst : l.svc.rt.inst.state = .fundamental) :
    Work W K e i l (l.tickFundamental w j) := by
  unfold tickFundamental
  dsimp only
  split
  · exact .refl l
  case isFalse hlive =>
    simp only [or_eq_true, decide_eq_true_eq, not_or, not_eq_true] at hlive
    obtain ⟨⟨hpath, hchild⟩, hctl⟩ := hlive
    have hpath : l.svc.conf.readyPath ≠ [] := by simpa using hpath
    have hseen : Work W K e i l { l with
        svc.rt.ready.pathVerified := l.svc.rt.ready.pathVerified || l.svc.readyPathFresh w } := .quiet hhelp rfl
    split
    · -- watched now, and perhaps gone already
      have hwatched : Work W K e i l { l with
          svc.rt.ready.pathVerified := l.svc.rt.ready.pathVerified || l.svc.readyPathFresh w
          svc.readyWatched := if w.watchOk then 1 else -1 } := .quiet hhelp rfl
      unfold readyWatch
      by_cases hgone : (w.watchOk && !w.readyThere) = true
      · simp only [if_pos hgone]
        rw [if_neg (readyLost_state w j _)]
        exact hwatched.trans (readyLost_work hhelp hop htick hw j hst hchild hctl hpath)
      · simp only [if_neg hgone]
        rw [if_pos hst]
        exact hwatched.trans (tickReadyPoll_work hhelp hop htick hw j hst hchild hctl hpath)
    · exact hseen.trans (tickReadyPoll_work hhelp hop htick hw j hst hchild hctl hpath)

theorem Loc.tickFuse_work (hfuse : l.svc.conf.fuse = true) : Work W K e i l l.tickFuse := by
  unfold tickFuse
  dsimp only
  split
  · have hkilled := (Work.signal (W := W) (e := e) (i := i) l l.svc.rt.childPid .kill).trans
      (.killTree hhelp hop _)
    exact hkilled.trans (.reach hhelp htick (.fuse hfuse) rfl rfl rfl rfl)
  case isFalse hchild =>
    have hchild : l.svc.rt.childPid = 0 := by omega
    refine .reach hhelp htick (.fuse hfuse) ?_ rfl rfl rfl
    exact (congrArg (fun p : Nat => core
      { l.svc with rt.inst.state := .excised, rt.exciseReason := .fuse, rt.childPid := p }) hchild :)

omit hop in
theorem Loc.tickListen_work (hst : l.svc.rt.inst.state = .newProcess) (hhold : l.svc.rt.listen.hold = true) :
    Work W K e i l (l.tickListen w) := by
  unfold tickListen
  cases hopen : l.svc.listenOpen w with
  | none => exact .arc htick (.listenFail hst hhold) rfl rfl
  | some s =>
    have hs : s.core = core { l.svc with rt.listen.open_ := s.rt.listen.open_ } :=
      core_listenOpen hopen
    refine .reach hhelp htick (.listenHeld hst hhold s.rt.listen.open_ (listenOpen_length hopen)) ?_ rfl rfl rfl
    rw [core_markBootReady]
    exact (congrArg (fun s : Service => { s with rt.inst.state := .perfect }) hs :)

theorem Loc.conditionSkip_work (hst : l.svc.rt.inst.state = .newProcess) : Work W K e i l (l.conditionSkip w) := by
  have hclose : ∀ o ∈ (l.svc.rt.listen.fds.take l.svc.rt.listen.open_).map Op.close,
      (∃ pid sig, o = .signal pid sig) ∨ (K .op ∧ OpFor e.cgroupRoot l.svc o) := by
    intro o ho
    obtain ⟨fd, _, rfl⟩ := mem_map.mp ho
    exact .inr ⟨hop, trivial⟩
  unfold conditionSkip
  dsimp only
  split
  case isTrue htimer =>
    exact .reachOps hhelp htick (.skipTimer hst htimer (l.listenClose.svc.timerRearm w).flags.timer)
      (core_timerRearm w l.listenClose.svc) rfl hclose rfl (.inr (.inl rfl))
  case isFalse htimer =>
    refine .reachOps hhelp htick (.skip hst (Bool.eq_false_iff.mpr htimer)) ?_ rfl hclose rfl (.inr (.inl rfl))
    rw [core_markBootReady]
    rfl

end

/-! ## The spawn -/

/-- A call of `service_spawn` for `s`, in a `Loc` that has gone from `l` to `l'`. -/
structure Spawns (e : Pid1) (s : Service) (l l' : Loc) : Prop where
  arc : ∃ t, SpawnArc e s t ∧ l'.svc.core = t.core
  ops : ∃ new, l'.ops = l.ops ++ new ∧ ∀ o ∈ new, (∃ pid sig, o = .signal pid sig) ∨ OpFor e.cgroupRoot s o

theorem Loc.cgroupAssign_spec (w : World) (l' : Loc) (hname : l'.svc.conf.name = s.conf.name) :
    ∃ cg new, (l'.cgroupAssign w e.cgroupRoot).svc = { l'.svc with rt.cgroupPath := cg } ∧
      (l'.cgroupAssign w e.cgroupRoot).ops = l'.ops ++ new ∧ (cg = [] ∨ cg = e.cgroupPathFor s.conf.name) ∧
      ∀ o ∈ new, (∃ pid sig, o = .signal pid sig) ∨ OpFor e.cgroupRoot s o := by
  unfold cgroupAssign
  rw [hname]
  split
  · exact ⟨[], [], rfl, by simp, .inl rfl, by simp⟩
  · refine ⟨_, [.assign (e.cgroupPathFor s.conf.name)], rfl, rfl, ?_, ?_⟩
    · split
      · exact .inr rfl
      · exact .inl rfl
    · intro o ho
      obtain rfl := mem_singleton.mp ho
      exact .inr rfl

theorem Loc.spawnFork_spawns (w : World) {s1 : Service} {n : Nat}
    (hn : n = s.rt.listen.open_ ∨ n = s.conf.listen.length)
    (hs : s1.core = core { s.cleared n with rt.inst.state := .fullTrust }) :
    Spawns e s l (orRecover (spawnFork w e.cgroupRoot { l with svc := s1 })) := by
  unfold spawnFork
  cases hfork : w.fork with
  | none =>
    exact ⟨⟨_, .failed n hn, (congrArg
      (fun s : Service => { s with rt.inst.state := .recovery }) hs :)⟩, [], by simp [orRecover], by simp⟩
  | some pid =>
    -- the cgroup the child is in, and what was done to get it there
    obtain ⟨cg, new, hl1, hcg, hnew⟩ : ∃ cg new, (if e.cgroupRoot.isEmpty = true then { l with svc := s1.spawned w pid }
          else cgroupAssign w e.cgroupRoot _) =
          { svc := { s1.spawned w pid with rt.cgroupPath := cg }, ops := l.ops ++ new } ∧
        (cg = [] ∨ cg = s.rt.cgroupPath ∨ cg = e.cgroupPathFor s.conf.name) ∧
        ∀ o ∈ new, (∃ pid sig, o = .signal pid sig) ∨ OpFor e.cgroupRoot s o := by
      split
      · refine ⟨s.rt.cgroupPath, [], ?_, .inr (.inl rfl), by simp⟩
        have hpath : s1.rt.cgroupPath = s.rt.cgroupPath := (congrArg (·.rt.cgroupPath) hs :)
        rw [← hpath, append_nil]
        rfl
      · have hname : s1.conf.name = s.conf.name := (congrArg (·.conf.name) hs :)
        obtain ⟨cg, new, hsvc, hops, hcg, hnew⟩ := cgroupAssign_spec w
          { l with svc := s1.spawned w pid } hname
        refine ⟨cg, new, ?_, hcg.imp id .inr, hnew⟩
        rw [← hsvc, ← hops]
    have hforked : ∀ p c, core { s1.spawned w pid with rt.childPid := p, rt.cgroupPath := c } =
        core { (s.cleared n).forked p w.now c with rt.inst.state := .fullTrust } := fun p c =>
      (congrArg (fun s : Service => { s with
        rt.childPid := p, rt.fork.state := 0, rt.main.pid := 0, rt.main.wait := false, rt.spawnTime := w.now,
        rt.cgroupPath := c }) hs :)
    simp only [hl1]
    rw [apply_ite orRecover]
    split
    case isTrue hfail =>
      have hcg' : cg = [] := by simpa using (Bool.and_eq_true_iff.mp hfail).1
      subst hcg'
      refine ⟨⟨_, .killed w.now n hn, ?_⟩, new ++ [.signal pid .kill], ?_, ?_⟩
      · exact (congrArg (fun s : Service => { s with rt.inst.state := .recovery }) (hforked 0 []) :)
      · simp [orRecover, signal, op]
      · intro o ho
        rcases mem_append.mp ho with ho | ho
        · exact hnew o ho
        · exact .inl ⟨_, _, mem_singleton.mp ho⟩
    · exact ⟨⟨_, .spawned w.now n pid cg hn hcg, hforked pid cg⟩, new, rfl, hnew⟩

theorem Loc.tickSpawn_spawns (w : World) (hl : l.svc.core = core { s with rt.inst.state := .fullTrust }) :
    Spawns e s l (l.tickSpawn w e.cgroupRoot) := by
  have hprep : (l.svc.spawnPrep w).core = core { s.cleared l.svc.rt.listen.open_ with rt.inst.state := .fullTrust } :=
    (core_spawnPrep w l.svc).trans (congrArg (fun t : Service => t.cleared l.svc.rt.listen.open_) hl :)
  have hsame : l.svc.rt.listen.open_ = s.rt.listen.open_ := (congrArg (·.rt.listen.open_) hl :)
  unfold tickSpawn serviceSpawn
  dsimp only
  generalize hopen : (if (l.svc.spawnPrep w).conf.listen.isEmpty = true then some (l.svc.spawnPrep w)
      else (l.svc.spawnPrep w).listenOpen w) = opened
  cases opened with
  | none =>
    exact ⟨⟨_, .failed _ (.inl hsame),
      (congrArg (fun s : Service => { s with rt.inst.state := .recovery }) hprep :)⟩, [],
      by simp [orRecover], by simp⟩
  | some s1 =>
    have hs : s1.core = core { s.cleared s1.rt.listen.open_ with rt.inst.state := .fullTrust } := by
      split at hopen
      · cases hopen
        exact hprep.trans (congrArg (fun n : Nat => core { s.cleared n with rt.inst.state := .fullTrust })
          (congrArg (·.rt.listen.open_) hprep :).symm :)
      · exact (core_listenOpen hopen).trans
          (congrArg (fun t : Service => { t with rt.listen.open_ := s1.rt.listen.open_ }) hprep :)
    have hn : s1.rt.listen.open_ = s.rt.listen.open_ ∨ s1.rt.listen.open_ = s.conf.listen.length := by
      have hopen0 : (l.svc.spawnPrep w).rt.listen.open_ = l.svc.rt.listen.open_ :=
        (congrArg (·.rt.listen.open_) hprep :)
      have hconf : (l.svc.spawnPrep w).conf = s.conf := (congrArg conf hprep :)
      rw [← hsame, ← hopen0, ← hconf]
      split at hopen
      · cases hopen
        exact .inl rfl
      · exact listenOpen_length hopen
    rw [apply_ite orRecover, apply_ite orRecover]
    split
    · exact ⟨⟨_, .failed _ hn, (congrArg (fun s : Service => { s with rt.inst.state := .recovery }) hs :)⟩, [],
        by simp [orRecover], by simp⟩
    · split
      case isTrue hslot =>
        have hconf : s1.conf = s.conf := (congrArg conf hs :)
        simp only [slotViolation, and_eq_true, decide_eq_true_eq, hconf] at hslot
        exact ⟨⟨_, .slot _ hn hslot.1,
          (congrArg (fun s : Service => { s with rt.inst.state := .recovery, flags.noRestart := true }) hs :)⟩, [],
          by simp [orRecover], by simp⟩
      · exact spawnFork_spawns w hn hs

/-! ## After the ticks, messages and commands -/

section
variable (hhelp : K .help) (hop : K .op)
include hhelp hop

omit hhelp in
theorem Loc.killGroup_work (pid : Nat) (sig : Sig) : Work W K e i l ((l.op (.signalGroup pid sig)).signal pid sig) := by
  refine ⟨.refl, ⟨[.signalGroup pid sig, .signal pid sig], by simp [signal, op], ?_⟩, rfl, .inr (.inl rfl)⟩
  intro o ho
  simp only [mem_cons, not_mem_nil, or_false] at ho
  rcases ho with rfl | rfl
  · exact .inr ⟨hop, trivial⟩
  · exact .inl ⟨_, _, rfl⟩

theorem Loc.monitorCard_work (w : World) : Work W K e i l (l.monitorCard w) := by
  unfold monitorCard
  dsimp only
  split
  · split
    · exact (killGroup_work hop _ _).trans (.quiet hhelp rfl)
    · exact killGroup_work hop _ _
  · exact .refl l

theorem Loc.monitorStop_work (w : World) : Work W K e i l (l.monitorStop w) := by
  unfold monitorStop
  dsimp only
  split
  · split
    · exact ((killGroup_work hop _ _).trans (.signal ..)).trans (.quiet hhelp rfl)
    · exact (killGroup_work hop _ _).trans (.quiet hhelp rfl)
  · exact .refl l

omit hop in
theorem Loc.monitorFailsafe_work (w : World) : Work W K e i l (l.monitorFailsafe w) := by
  unfold monitorFailsafe
  dsimp only
  split
  · exact .refl l
  · split
    · exact .quiet hhelp rfl
    · split
      · split
        · exact .signal ..
        · exact .refl l
      · split
        · exact .signal ..
        · exact .refl l

theorem Loc.monitorMain_work (hmonitor : K .monitor) (hw : W i w) (j : Nat) : Work W K e i l (l.monitorMain w j) := by
  unfold monitorMain
  split
  case isTrue hdue =>
    have hwait : l.svc.rt.main.wait = true := (Bool.and_eq_true_iff.mp hdue).1
    refine Work.trans ?_ (stopCmdsBegin_work hhelp w j 2 _)
    -- the tree and the budget first, the verdict last
    obtain ⟨l1, h1, hq, hops, hwait1⟩ : ∃ l1 : Loc, Work W K e i l l1 ∧
        (startFailsafe w (let l := killTree { l with svc.rt.main.wait := false }
          { l with svc := l.svc.restartBudgetRefresh w })).svc.core = core { l1.svc with rt.main.wait := false } ∧
        (startFailsafe w (let l := killTree { l with svc.rt.main.wait := false }
          { l with svc := l.svc.restartBudgetRefresh w })).ops = l1.ops ∧ l1.svc.rt.main.wait = true := by
      refine ⟨{ l.killTree with svc := l.killTree.svc.restartBudgetRefresh w },
        (Work.killTree hhelp hop l).trans (.refresh hmonitor hw _ (.refresh · hwait)),
          ?_, (quiet_startFailsafe w _).2, ?_⟩
      · rw [(quiet_startFailsafe ..).1]
        dsimp only [restartBudgetRefresh, killTree, op]
        split <;> rfl
      · dsimp only [restartBudgetRefresh, killTree, op]
        split <;> exact hwait
    generalize startFailsafe w _ = l2 at hq hops ⊢
    have hflags : l2.svc.flags = l1.svc.flags := (congrArg flags hq :)
    split
    case isTrue hno =>
      rw [hflags] at hno
      exact h1.trans (.reach hhelp hmonitor (.excise hwait1 hno)
        (congrArg (fun s : Service => { s with rt.inst.state := .excised, rt.exciseReason := .mainPidTimeout }) hq :)
        hops rfl rfl)
    case isFalse hno =>
      rw [hflags, not_eq_true] at hno
      exact h1.trans (.reach hhelp hmonitor (.retry hwait1 hno)
        (congrArg (fun s : Service => { s with rt.inst.state := .recovery }) hq :) hops rfl rfl)
  · exact .refl l

theorem Loc.monitor_work (hmonitor : K .monitor) (hw : W i w) (j : Nat) : Work W K e i l (l.monitor w j) :=
  (((monitorCard_work hhelp hop w).trans (monitorMain_work hhelp hop hmonitor hw j)).trans
    (monitorStop_work hhelp hop w)).trans (monitorFailsafe_work hhelp w)

omit hop in
theorem Loc.watchdogTick_work (paused : Bool) (w : World) : Work W K e i l (l.watchdogTick paused w) := by
  unfold watchdogTick
  dsimp only
  split
  · exact .refl l
  · split
    · exact .quiet hhelp rfl
    · split
      · exact .refl l
      · split
        · exact (Work.signal ..).trans (.quiet hhelp rfl)
        · exact (Work.signal ..).trans (.quiet hhelp rfl)

/-! ### Messages -/

omit hop in
theorem Service.hearMainpid_work (w : World) (p : Nat) (hhear : p ≠ 0 → K .hear) :
    Work W K e i l { l with svc := l.svc.hearMainpid w p } := by
  unfold hearMainpid
  split
  · exact .refl l
  case isFalse hp =>
    simp only [or_eq_true, decide_eq_true_eq, not_eq_true', not_or, Bool.not_eq_false] at hp
    split
    · exact .quiet hhelp rfl
    · split
      case isTrue hwhy =>
        split
        · refine .arc (hhear hp.1) (.adopt p hp.1 hp.2 ?_) rfl rfl
          simpa using hwhy
        · exact .quiet hhelp rfl
      case isFalse hwhy =>
        split
        · refine .arc (hhear hp.1) (.remember p hp.2 ?_) rfl rfl
          simp only [or_eq_true, not_or, not_eq_true] at hwhy
          exact hwhy.1
        · exact .refl l

theorem Loc.hearReady_work (w : World) : Work W K e i l (l.hearReady w) := by
  unfold hearReady
  dsimp only
  split
  · exact .refl l
  · split
    · have hlast : Work W K e i l { l with svc.rt.ready.notifyReady := false, svc.rt.watchdog.lastPet := w.now } :=
        .quiet hhelp rfl
      exact hlast.trans (.killTree hhelp hop _)
    · exact .quiet hhelp rfl

omit hhelp hop in
theorem Service.core_hearStatus (w : World) (m : Msg) (s : Service) : (s.hearStatus w m).core = s.core := by
  unfold hearStatus
  split <;> split <;> rfl

theorem Loc.hear_work (w : World) (m : Msg) (hhear : m.mainpid ≠ 0 → K .hear) : Work W K e i l (l.hear w m) := by
  have hfirst : Work W K e i l { l with svc := (l.svc.hearMainpid w m.mainpid).hearStatus w m } :=
    (hearMainpid_work hhelp w m.mainpid hhear).trans (.quiet hhelp (core_hearStatus w m _))
  unfold hear
  split
  · exact hfirst.trans (hearReady_work hhelp hop w)
  · exact hfirst

end

/-! ### Commands -/

theorem Loc.ctlWaitAbort_spec (w : World) (j : Nat) (l : Loc) : ∃ (kill : Bool) (n : Int), 0 ≤ n ∧
      (l.ctlWaitAbort w j).svc.core =
        core { (if kill then l.killTree else l).svc with rt.fork.state := n, rt.main.wait := false } ∧
      (l.ctlWaitAbort w j).ops = (if kill then l.killTree else l).ops := by
  unfold ctlWaitAbort
  dsimp only
  split
  case isTrue hnone =>
    simp only [and_eq_true, decide_eq_true_eq, not_eq_true'] at hnone
    refine ⟨false, l.svc.rt.fork.state, hnone.1, ?_, rfl⟩
    exact (congrArg (fun b : Bool => core { l.svc with rt.main.wait := b }) hnone.2 :)
  · refine ⟨true, 0, le_refl _, ?_, ?_⟩
    · split
      · exact (quiet_stopCmdsBegin w j 2 _).1
      · rfl
    · split
      · exact (quiet_stopCmdsBegin w j 2 _).2
      · rfl

end SchemaInit.Engine
