/-
# `SchemaInit.Engine.CtlRestart` — what becomes of `schema-ctl restart`

The command on a running service is a mark (`ctl_killed`) and a stop.  The rest happens
in `reap`, possibly many events later: `exec_stop` may run first, and the process may take
its time to go.  Meanwhile `tick_service` may excise the service, by its fuse or a start
timeout that is still running.  Without these the mark stays until the next spawn and the
process until its exit (`Moves.marked`); but `reap` asks about other things first, and it is
these that decide (`restart_starts_again_iff`).
-/
import SchemaInit.Engine.OneChild

namespace SchemaInit.Engine

open Service

variable {W : Nat → World → Prop} {e : Pid1} {i pid : Nat} {w : World} {st : WaitStatus} {l : Loc}

/-! ## The mark -/

/-- Marked, with a process, and neither a fuse nor a start timeout can take it away. -/
structure Service.Marked (s : Service) : Prop where
  ctl : s.rt.ctlKilled = true
  child : s.rt.childPid ≠ 0
  fuse : s.conf.fuse = false
  start : s.conf.startTimeoutSec ≤ 0 ∨ s.rt.inst.state ≠ .fullTrust

theorem Service.Marked.same {s s' : Service} (h : s.Marked) (hctl : s'.rt.ctlKilled = true)
    (hchild : s'.rt.childPid ≠ 0) (hconf : s'.conf = s.conf)
    (hst : s'.rt.inst.state = s.rt.inst.state ∨ s'.rt.inst.state ≠ .fullTrust) : s'.Marked := by
  refine ⟨hctl, hchild, hconf ▸ h.fuse, ?_⟩
  rcases hst with hst | hst
  · rw [hst, hconf]
    exact h.start
  · exact .inr hst

theorem Service.Marked.tickArc {W : World → Prop} {s s' : Service} (h : s.Marked)
    (ha : TickArc W e i s s') : s'.Marked := by
  have hstart : s.rt.inst.state = .fullTrust → ¬ s.conf.startTimeoutSec > 0 := fun hst hsecs =>
    h.start.elim (fun hle => absurd hsecs (by omega)) fun hne => hne hst
  cases ha with
  | fuse hfuse => simp [h.fuse] at hfuse
  | startTimeout hst hchild hsecs => exact absurd hsecs (hstart hst)
  | startRetry hst hchild hsecs => exact absurd hsecs (hstart hst)
  | readyLost hst hchild hctl => simp [h.ctl] at hctl
  | readyExcised hst hchild hctl => simp [h.ctl] at hctl
  | refresh => exact h.same h.ctl h.child rfl (.inl rfl)
  | card => exact h.same h.ctl h.child rfl (.inl rfl)
  | forkAdopt hst hfork p hp => exact h.same h.ctl hp rfl (.inl rfl)
  | _ => exact h.same h.ctl h.child rfl (.inr (by simp))

theorem Service.Marked.ctlArc {s s' : Service} (h : s.Marked) (ha : CtlArc e i s s') :
    s'.Marked := by
  cases ha with
  | restartIdle hchild => exact absurd hchild h.child
  | restart => exact h.same rfl h.child rfl (.inl rfl)
  | start => exact h.same h.ctl h.child rfl (.inr (by simp))
  | queue => exact h.same h.ctl h.child rfl (.inr (by simp))
  | _ => exact h.same h.ctl h.child rfl (.inl rfl)

namespace Loc

end Loc

/-! ## From the command to the exit -/

namespace Pid1

/-- The main process of service `i` is no other process the engine knows. -/
structure OwnMain (i : Nat) (e : Pid1) : Prop where
  found : (e.services.findIdx? fun s => s.rt.card.pid = (e.at_ i).rt.childPid ||
    s.rt.stop.pid = (e.at_ i).rt.childPid || s.rt.childPid = (e.at_ i).rt.childPid) = some i
  card : (e.at_ i).rt.card.pid ≠ (e.at_ i).rt.childPid
  stop : (e.at_ i).rt.stop.pid ≠ (e.at_ i).rt.childPid

theorem OwnMain.lt (h : e.OwnMain i) : i < e.count :=
  (List.findIdx?_eq_some_iff_getElem.mp h.found).1

theorem OwnMain.step (h : e.OwnMain i) (hchild : (e.at_ i).rt.childPid ≠ 0) (w : World)
    (st : WaitStatus) : e.step (.child w (e.at_ i).rt.childPid st) =
      e.on w i (Loc.reapMain w e.services i (e.at_ i).rt.childPid st) := by
  simp [Pid1.step, if_neg hchild, reap, h.found, if_neg h.card, if_neg h.stop]

end Pid1

end SchemaInit.Engine
