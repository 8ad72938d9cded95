/-
# `SchemaInit.FdClose.Exact` — handed-over descriptors are closed exactly once

The purpose of `fdclose.h`: a descriptor given to `fd_close_detached` is closed
once, by somebody, and no `close()` made on the way hits anything else.

It does not hold in every run.  `fdclose_resume` trusts the numbers in
`fdclose_ovf_fds`, but a number the overflow closer freed may have been opened
again by PID 1 before the resume (`reexec_target` is opened before the quiesce),
and the record is not cleared when `fdclose_quiesce` buries an overflow closer
that exited by itself.  And when the overflow closer outlives `SIGKILL`, what it
had not reached is forgotten with the record once it is reaped.  `Careful` rules
these steps out, and in every run of careful steps `ClosedOnce` holds.
-/
import SchemaInit.FdClose.Quiesce

namespace SchemaInit.FdClose

open FdClose List KeyedList

/-! ## The specification -/

/-- Nothing was closed twice, every close found a handed-over descriptor, and one that is not closed
yet waits in exactly one place. -/
structure ClosedOnce (s : State) : Prop where
  once : (closedFiles s).Nodup
  nothingElse : ∀ c ∈ s.closes, ∃ f ∈ s.handed, c.2 = some f
  notLost : ∀ f ∈ s.handed, f ∈ closedFiles s ∨ ∃ fd, s.table.get fd = some f ∧ refs s fd = 1
  allDone : s.procs = [] → s.parked = [] → s.ovfFds = [] → ∀ f ∈ s.handed, f ∈ closedFiles s

/-- The steps that leave the record alone when it can no longer be trusted: no
resume (nor a quiesce, which may resume) while a recorded number has been
opened again, and no burial of an overflow closer that was killed before it
reached everything, other than by the quiesce that killed it. -/
def Careful (s : State) : Event → Prop
  | .reap pid _ => s.ovf = some pid → ∀ p ∈ s.procs, p.pid = pid → p.todo = []
  | .quiesce _ _ => Unreopened s ∧ OvfWhole s
  | .resume _ => Unreopened s
  | _ => True

instance (s : State) : Decidable (OvfWhole s) :=
  inferInstanceAs (Decidable (∀ p ∈ s.procs, s.ovf = some p.pid → p.killed = true → p.todo = []))

instance (s : State) : ∀ e, Decidable (Careful s e)
  | .reap pid _ =>
    inferInstanceAs (Decidable (s.ovf = some pid → ∀ p ∈ s.procs, p.pid = pid → p.todo = []))
  | .quiesce _ _ => inferInstanceAs (Decidable (Unreopened s ∧ OvfWhole s))
  | .resume _ => inferInstanceAs (Decidable (Unreopened s))
  | .openFd | .closeOwn _ | .sender _ _ | .full | .detach _ _ _ | .move _ => inferInstanceAs (Decidable True)

/-! ## One step -/

structure Sound (s : State) : Prop where
  inv : Inv s []
  rest : s.committing = false → Rest s

variable {s : State}

theorem Inv.closedOnce (h : Inv s []) : ClosedOnce s where
  once := h.once
  nothingElse := h.closesOk
  notLost := by
    intro f hf
    rcases h.accounted f hf with hc | ⟨fd, hfd⟩
    · exact .inl hc
    · have hledger := h.ledger fd
      rw [due_eq_one ⟨f, hf, hfd⟩] at hledger
      exact .inr ⟨fd, hfd, by simpa using hledger⟩
  allDone := by
    intro hprocs hparked hrec f hf
    rcases h.accounted f hf with hc | ⟨fd, hfd⟩
    · exact hc
    · have hledger := h.ledger fd
      rw [due_eq_one ⟨f, hf, hfd⟩] at hledger
      simp [refs, recCount, liveCount, hprocs, hparked, hrec] at hledger

theorem Inv.closeOwn (h : Inv s []) {fd : Int} (hown : Own s fd) : Inv { s with table := s.table.close fd } [] := by
  obtain ⟨f, hf, hnot⟩ : ∃ f, s.table.get fd = some f ∧ f ∉ s.handed := by
    unfold Own at hown
    split at hown
    · exact hown.elim
    case h_2 f hf => exact ⟨f, hf, hown⟩
  have hlive : ∀ n, liveCount (s.table.close fd).get s.ovfFds n = liveCount s.table.get s.ovfFds n := by
    intro n
    by_cases hn : n = fd
    · subst hn
      rw [liveCount_eq_zero_of_none (s.table.get_close_self n), eq_comm, liveCount, countP_eq_zero]
      intro r hr hr'
      obtain ⟨g, hg, hrg⟩ := h.recHanded r hr
      simp only [decide_eq_true_eq] at hr'
      rw [hf, hrg] at hr'
      exact hnot (Option.some.inj hr'.2.2 ▸ hg)
    · exact liveCount_congr (s.table.get_close_of_ne hn)
  refine { h with ledger := ?_, inj := ?_, fresh := ?_, gone := ?_, accounted := ?_, recTodo := ?_ }
  · intro n
    have hdue : due { s with table := s.table.close fd } n = due s n := by
      by_cases hn : n = fd
      · subst hn
        rw [due_eq_zero, due_eq_zero]
        · rintro ⟨g, hg, hg'⟩
          rw [hf] at hg'
          exact hnot (Option.some.inj hg' ▸ hg)
        · rintro ⟨g, -, hg⟩
          simp at hg
      · exact due_congr (s.table.get_close_of_ne hn) rfl
    rw [hdue]
    simpa [refs, recCount, hlive] using h.ledger n
  · intro n n' g hn hn'
    exact h.inj n n' g (FdTable.get_of_get_close hn).1 (FdTable.get_of_get_close hn').1
  · intro n g hn
    exact h.fresh n g (FdTable.get_of_get_close hn).1
  · intro g hg n hn
    exact h.gone g hg n (FdTable.get_of_get_close hn).1
  · intro g hg
    rcases h.accounted g hg with hc | ⟨n, hn⟩
    · exact .inl hc
    · have hne : n ≠ fd := by
        rintro rfl
        rw [hf] at hn
        exact hnot (Option.some.inj hn ▸ hg)
      exact .inr ⟨n, (s.table.get_close_of_ne hne).trans hn⟩
  · intro p hp hovf n
    exact (h.recTodo p hp hovf n).trans (hlive n).symm

theorem Rest.openFd (h : Rest s) (hi : Inv s []) : Rest (openFd s) := by
  unfold FdClose.openFd
  split
  · exact h
  case h_2 fd t halloc =>
    intro hnone n
    rw [hi.liveCount_alloc halloc]
    exact h hnone n

theorem Rest.full (h : Rest s) : Rest (full s).1 := by
  unfold FdClose.full
  split
  · exact h
  · exact h.passrights false

theorem Rest.spawn (h : Rest s) (fd : Int) (ok : Bool) : Rest (spawn s fd ok) := by
  have hclose : ∀ {u : State}, Rest u → Rest (close u fd) :=
    fun hu => hu.of_shrunk rfl rfl (FdTable.get_close_or _ fd)
  unfold FdClose.spawn
  split
  · dsimp only
    split
    · exact h.full
    · exact hclose h.full
  · split
    · exact h
    · exact hclose h

theorem Rest.spawnAll (h : Rest s) (fds : List Int) (oks : List Bool) : Rest (spawnAll s fds oks) := by
  induction fds generalizing s oks with
  | nil => exact h
  | cons fd fds ih => exact ih (h.spawn fd _) _

theorem reaped_eq {pid i : Nat} (hi : s.tracked.findIdx? (fun t => t.pid = pid) = some i) (ok : Bool) :
    reaped { s with procs := remove Proc.pid pid s.procs } pid ok =
      reopen (flush (bury (if s.ovf = some pid then { s with ovfFds := [] } else s) i pid) ok) := by
  simp only [reaped, hi]
  split <;> rfl

theorem Sound.reap (h : Sound s) {pid : Nat} (hc : s.committing = false)
    (hz : ∃ p ∈ s.procs, p.pid = pid ∧ p.exited = true)
    (hdone : s.ovf = some pid → ∀ p ∈ s.procs, p.pid = pid → p.todo = []) (ok : Bool) :
    Inv (reaped { s with procs := remove Proc.pid pid s.procs } pid ok) [] ∧
      Rest (reaped { s with procs := remove Proc.pid pid s.procs } pid ok) := by
  obtain ⟨p, hp, hpid, hexit⟩ := hz
  obtain ⟨i, hi⟩ : ∃ i, s.tracked.findIdx? (fun t => t.pid = pid) = some i := by
    cases hf : s.tracked.findIdx? (fun t => t.pid = pid) with
    | some i => exact ⟨i, rfl⟩
    | none =>
      have hmem := h.inv.known.symm.subset (mem_map_of_mem hp)
      obtain ⟨t, ht, htp⟩ := mem_map.mp hmem
      have := findIdx?_eq_none_iff.mp hf t ht
      simp [htp, hpid] at this
  obtain ⟨hlt, hti, -⟩ := findIdx?_eq_some_iff_getElem.mp hi
  have ht : s.tracked[i]? = some s.tracked[i] := getElem?_eq_getElem hlt
  have htp : s.tracked[i].pid = pid := by simpa using hti
  have hlook : lookup Proc.pid pid s.procs = some p := by
    rw [← hpid]
    exact lookup_of_mem h.inv.pids hp
  have hw : waited s s.tracked[i].pid = true := by
    rw [htp]
    simp [waited, hlook, hexit]
  rw [reaped_eq hi]
  by_cases hovf : s.ovf = some pid
  · -- the overflow closer: everything it was given is closed, so the record may go
    rw [if_pos hovf]
    have hclear : Inv { s with ovfFds := [] } [] := by
      refine { h.inv with ledger := ?_, recHanded := by simp, recTodo := ?_ }
      · intro n
        have hrec : recCount { s with ovfFds := [] } n = recCount s n := by simp [recCount, hovf]
        have hdue : due { s with ovfFds := [] } n = due s n := due_congr rfl rfl
        simpa [refs, hrec, hdue] using h.inv.ledger n
      · intro q hq hq' n
        have hqp : q.pid = pid := (Option.some.inj (hovf.symm.trans hq')).symm
        rw [hdone hovf q hq hqp]
        rfl
    have hburied := hclear.bury ht hw
    rw [htp] at hburied
    exact hburied.flushReopen (fun _ n => rfl) ok
  · rw [if_neg hovf]
    have hburied := h.inv.bury ht hw
    have hovf' := bury_ovf ht
    rw [htp] at hburied hovf'
    rw [if_neg hovf] at hovf'
    exact hburied.flushReopen ((h.rest hc).of_shrunk hovf' rfl (fun n => .inr rfl)) ok

theorem Calm.quiesce (h : Calm s) (script : List (List Nat)) (ok : Bool) :
    Inv (quiesce s script ok).1 [] ∧ ((FdClose.quiesce s script ok).2 ≠ 0 → Rest (FdClose.quiesce s script ok).1) := by
  have hsettle := kept_calm.settle 100 h script
  simp only [FdClose.quiesce]
  split
  · exact ⟨hsettle.inv, fun _ => hsettle.rest⟩
  case isFalse hs =>
  have hreached := h.inv.settle_reached 100 script (by simpa using hs)
  obtain ⟨hkill, hukill⟩ := hsettle.inv.killAll _ hsettle.unreopened hreached (settle 100 s script).2.1
  obtain ⟨hcol, hucol⟩ := kept_unreopened.collectAll 100 ⟨hkill, hukill⟩ _
  split
  · exact ⟨hcol, fun hne => absurd rfl hne⟩
  · obtain ⟨hinv, hrest⟩ := hcol.resume (fun _ => hucol) ok
    exact ⟨hinv, fun _ => hrest⟩

theorem sound_step {e : Event} (h : Sound s) (ha : Allowed s e) (hc : Careful s e) : Sound (step s e) := by
  cases e with
  | openFd =>
    refine ⟨h.inv.openFd, fun hcommit => ?_⟩
    have hsame : (openFd s).committing = s.committing := by
      unfold openFd
      split <;> rfl
    exact (h.rest (hsame.symm.trans hcommit)).openFd h.inv
  | closeOwn fd =>
    exact ⟨h.inv.closeOwn ha, fun hcommit => (h.rest hcommit).of_shrunk rfl rfl (s.table.get_close_or fd)⟩
  | sender pid uid => exact ⟨{ h.inv with }, h.rest⟩
  | full => exact ⟨h.inv.full, fun _ => (h.rest ha).full⟩
  | detach fds oks ok =>
    obtain ⟨hcommit, hd, hown⟩ := ha
    have hhand := h.inv.hand hd hown
    have hrest : Rest { s with handed := s.handed ++ fds.filterMap s.table.get } := h.rest hcommit
    have hspawn : Inv (spawnAll _ fds oks) [] := Inv.spawnAll (by simpa using hhand)
    exact ⟨hspawn.flush (hrest.spawnAll fds oks) ok, fun _ => (hrest.spawnAll fds oks).flush ok⟩
  | move pid =>
    refine ⟨h.inv.move pid, fun hcommit => ?_⟩
    have hsame : (move s pid).committing = s.committing := by
      obtain hm | ⟨f, -, hm⟩ | ⟨p, fd, rest, -, -, hm⟩ := move_cases s pid <;> rw [hm] <;> rfl
    exact (h.rest (hsame.symm.trans hcommit)).move pid
  | reap pid ok =>
    obtain ⟨hinv, hrest⟩ := h.reap ha.1 ha.2 hc ok
    exact ⟨hinv, fun _ => hrest⟩
  | quiesce script ok =>
    obtain ⟨hinv, hrest⟩ := Calm.quiesce ⟨h.inv, hc.1, h.rest ha, hc.2⟩ script ok
    refine ⟨{ hinv with }, fun hcommit => ?_⟩
    exact hrest (by simpa [step] using hcommit)
  | resume ok =>
    obtain ⟨hinv, hrest⟩ := h.inv.resume (fun _ => hc) ok
    exact ⟨{ hinv with }, fun _ => hrest⟩

theorem sound_init (b : Bool) : Sound (State.init b) :=
  ⟨Inv.init b, fun _ _ _ => rfl⟩

/-! ## Every run -/

/-- In every run of careful steps each handed-over descriptor is closed exactly
once and nothing else is closed. -/
theorem closedOnce_of_careful_run (b : Bool) {s : State}
    (h : Run.Reaches step (fun s e => Allowed s e ∧ Careful s e) (State.init b) s) : ClosedOnce s := by
  have hsound : Sound s := h.invariant Sound (sound_init b) (fun u e hu he => sound_step hu he.1 he.2)
  exact hsound.inv.closedOnce

/-- Two descriptors are handed over, each to a closer of its own; the second one is done first. -/
def twoClosersRun : List Event :=
  [.openFd, .openFd, .detach [0, 1] [true, true] true, .move 2, .move 1, .move 2, .move 2, .move 1, .move 1,
    .reap 2 true, .reap 1 true]

theorem closedOnce_after_two_closers :
    Run.AllOk step (fun s e => Allowed s e ∧ Careful s e) (State.init true) twoClosersRun ∧
      ClosedOnce (twoClosersRun.foldl step (State.init true)) := by
  have hrun : Run.AllOk step (fun s e => Allowed s e ∧ Careful s e) (State.init true) twoClosersRun := by
    decide
  exact ⟨hrun, closedOnce_of_careful_run true hrun.reaches⟩

/-! ## A number opened again before the resume -/

/-- PID 1 holds 34 descriptors and hands over all of them: 32 get a closer each,
0 and 1 are parked and go to the overflow closer, which blocks on 0.  PID 1
opens its re-exec target, which takes number 0.  The quiesce kills all
closers, the exec fails, and the resume hands 0 and 1 to a new closer. -/
def reusedNumberRun : List Event :=
  List.replicate 34 .openFd ++
  [.detach ((List.range 32).map fun n => (n : Int) + 2) (List.replicate 32 true) true,
   .detach [0, 1] [] true, .move 33, .openFd] ++
  (List.range 32).map (fun n => .move (n + 1)) ++
  [.quiesce (List.replicate 66 [] ++ [List.range 34]) true, .resume true, .move 34]

theorem not_closedOnce_of_foreign {fd : Int} {f : Nat} (hc : (fd, some f) ∈ s.closes)
    (hf : f ∉ s.handed) : ¬ ClosedOnce s := by
  intro h
  obtain ⟨g, hg, hfg⟩ := h.nothingElse _ hc
  exact hf (Option.some.inj hfg ▸ hg)

/-- The new closer closes the re-exec target, which nobody handed over. -/
theorem reusedNumberRun_closes_target :
    ∃ s, Run.Reaches step Allowed (State.init false) s ∧ ((0 : Int), some 34) ∈ s.closes ∧
      34 ∉ s.handed ∧ ¬ ClosedOnce s := by
  have hrun : Run.AllOk step Allowed (State.init false) reusedNumberRun := by
    decide +kernel
  have hend : ((0 : Int), some 34) ∈ (reusedNumberRun.foldl step (State.init false)).closes ∧
      34 ∉ (reusedNumberRun.foldl step (State.init false)).handed := by
    decide +kernel
  exact ⟨reusedNumberRun.foldl step _, hrun.reaches, hend.1, hend.2,
    not_closedOnce_of_foreign hend.1 hend.2⟩

end SchemaInit.FdClose
