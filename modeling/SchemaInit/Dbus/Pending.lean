/-
# `SchemaInit.Dbus.Pending` — every recorded call is resolved once

The pending-reply table under any interleaving of its operations: a call is
recorded, a reply that names its caller is matched, overdue calls are reaped, the
entries of a connection are purged, or a connection disconnects, which reports
the calls it owes a reply to and then purges.

Calls are numbered in the order in which they are recorded.  An observer that
sees only the table before and after each operation keeps for each slot the
number of the call in it, and logs the calls that went from live to dead with the
reason.  `calls_resolved_once` says that the numbers in the log and those of the
live slots are together each call once; that a call is logged only when an event
for it happens, with callee, caller and serial as recorded; and that the events
that owe an answer give it, to the caller and for the serial of that very call.

A purge on its own reports nothing.  When it is of a connection that others wait
on, their calls are resolved without a word (`purged_silently`); the broker
always asks for them first.  `Quiet` excludes that.
-/
import SchemaInit.Dbus.Reply
import SchemaInit.Lib.Run
import Mathlib.Data.List.Forall2

namespace SchemaInit.Dbus

open List Prod

variable {t t' : Replies}
variable (n : Nat) (slots : List (Nat × ReplyEnt))

structure Call where
  callee : ConnId
  caller : ConnId
  serial : Nat
  deadline : Int
  deriving DecidableEq

def ReplyEnt.call (r : ReplyEnt) : Call where
  callee := r.callee
  caller := r.caller
  serial := r.serial
  deadline := r.deadline

inductive ReplyOp where
  | record (callee : ConnId) (serial : Nat) (caller : ConnId) (now : Int)
  /-- a reply of `callee` that names its caller -/
  | reply (callee : ConnId) (serial : Nat) (caller : ConnId)
  | reap (now : Int)
  | purge (c : ConnId)
  /-- `pending_on`, then `purge` -/
  | disconnect (c : ConnId)

/-- The table after an operation, and to whom it gives an answer for which serial. -/
def ReplyOp.apply (t : Replies) : ReplyOp → Replies × List (ConnId × Nat)
  | .record callee serial caller now => (repliesRecord t callee serial caller now, [])
  | .reply callee serial caller =>
    ((repliesMatch t callee serial (some caller)).1,
      (repliesMatch t callee serial (some caller)).2.toList.map (fun c => (c, serial)))
  | .reap now => repliesReapExpired t now
  | .purge c => (repliesPurge t c, [])
  | .disconnect c => (repliesPurge t c, repliesPendingOn t c)

def ReplyOp.recorded : ReplyOp → List Call
  | .record callee serial caller now =>
    [{ callee := callee, caller := caller, serial := serial, deadline := now + replyTimeoutMs }]
  | _ => []

/-! ## Why a call is resolved -/

inductive Cause where
  | replied | timedOut | calleeGone | callerGone
  /-- nobody was told -/
  | silent
  deriving DecidableEq

def causeOf (op : ReplyOp) (r : ReplyEnt) : Cause :=
  match op with
  | .record .. => .silent
  | .reply .. => .replied
  | .reap _ => .timedOut
  | .purge c => if r.caller = c then .callerGone else .silent
  | .disconnect c => if r.caller = c then .callerGone else .calleeGone

inductive Happens (k : Call) : Cause → ReplyOp → Prop where
  | replied : Happens k .replied (.reply k.callee k.serial k.caller)
  | timedOut {now : Int} (h : k.deadline ≤ now) : Happens k .timedOut (.reap now)
  | calleeGone (h : k.caller ≠ k.callee) : Happens k .calleeGone (.disconnect k.callee)
  | callerGone : Happens k .callerGone (.disconnect k.caller)
  | callerPurged : Happens k .callerGone (.purge k.caller)

def ReplyOp.Quiet (t : Replies) : ReplyOp → Prop
  | .purge c => ∀ r ∈ t, r.live = true → r.callee = c → r.caller = c
  | _ => True

/-! ## What an operation does to the slots -/

def ReplyEnt.dead (r : ReplyEnt) : ReplyEnt := { r with live := false }

@[simp] theorem ReplyEnt.dead_live (r : ReplyEnt) : r.dead.live = false := rfl

inductive SlotStep (op : ReplyOp) (e : ReplyEnt) : ReplyEnt → Prop where
  | keep : SlotStep op e e
  | finish (hlive : e.live = true) (hcause : Happens e.call (causeOf op e) op) : SlotStep op e e.dead

def gone (t t' : Replies) : Replies :=
  ((t.zip t').filter (fun x => x.1.live && !x.2.live)).map fst

@[simp] theorem gone_nil_left (t' : Replies) : gone [] t' = [] := rfl
@[simp] theorem gone_nil_right (t : Replies) : gone t [] = [] := by cases t <;> rfl

@[simp] theorem gone_cons (e e' : ReplyEnt) (t t' : Replies) :
    gone (e :: t) (e' :: t') = if e.live && !e'.live then e :: gone t t' else gone t t' := by
  by_cases h : (e.live && !e'.live) = true
  · simp [gone, h]
  · simp [gone, h]

theorem gone_self (t : Replies) : gone t t = [] := by
  induction t with
  | nil => rfl
  | cons e t ih => simp [ih]

theorem gone_map (p : ReplyEnt → Bool) (hp : ∀ e, p e = true → e.live = true) (t : Replies) :
    gone t (t.map (fun e => if p e then e.dead else e)) = t.filter p := by
  induction t with
  | nil => rfl
  | cons e t ih =>
    by_cases h : p e = true
    · simp [h, hp e h, ih]
    · simp [h, ih]

theorem forall₂_map (op : ReplyOp) (p : ReplyEnt → Bool)
    (hp : ∀ e, p e = true → e.live = true ∧ Happens e.call (causeOf op e) op) (t : Replies) :
    List.Forall₂ (SlotStep op) t (t.map (fun e => if p e then e.dead else e)) := by
  rw [forall₂_map_right_iff, forall₂_same]
  intro e _
  by_cases h : p e = true
  · rw [if_pos h]
    exact .finish (hp e h).1 (hp e h).2
  · rw [if_neg h]
    exact .keep

theorem repliesReapExpired_eq (t : Replies) (now : Int) : repliesReapExpired t now =
      (t.map (fun r => if r.live && decide (r.deadline ≤ now) then r.dead else r),
        (t.filter (fun r => r.live && decide (r.deadline ≤ now))).map (fun r => (r.caller, r.serial))) := by
  simp [repliesReapExpired, ReplyEnt.dead]

theorem repliesPurge_eq (t : Replies) (c : ConnId) : repliesPurge t c =
      t.map (fun r => if r.live && (decide (r.caller = c) || decide (r.callee = c)) then r.dead else r) := by
  simp [repliesPurge, ReplyEnt.dead]

theorem repliesMatch_cases (t : Replies) (callee : ConnId) (serial : Nat) (caller : ConnId) :
    (repliesMatch t callee serial (some caller) = (t, none) ∧
        ∀ r ∈ t, r.live = true → ¬ (r.callee = callee ∧ r.serial = serial ∧ r.caller = caller)) ∨
      ∃ pre e post, t = pre ++ e :: post ∧ e.live = true ∧ e.callee = callee ∧ e.serial = serial ∧ e.caller = caller ∧
        repliesMatch t callee serial (some caller) = (pre ++ e.dead :: post, some caller) := by
  have hans (r : ReplyEnt) : r.answers callee serial (some caller) = true ↔
      r.live = true ∧ r.callee = callee ∧ r.serial = serial ∧ r.caller = caller := by
    simp only [ReplyEnt.answers, Option.isNone_some, Bool.false_or, Bool.and_eq_true, decide_eq_true_eq,
      Option.some.injEq, and_assoc]
    rw [eq_comm (a := caller)]
  unfold repliesMatch
  cases hidx : t.findIdx? (fun r => r.answers callee serial (some caller)) with
  | none =>
    refine .inl ⟨rfl, ?_⟩
    rw [findIdx?_eq_none_iff] at hidx
    intro r hr hlive hkey
    have := hidx r hr
    rw [(hans r).mpr ⟨hlive, hkey⟩] at this
    cases this
  | some i =>
    obtain ⟨hlt, hmatch, -⟩ := findIdx?_eq_some_iff_getElem.mp hidx
    obtain ⟨hlive, hcallee, hserial, hcaller⟩ := (hans _).mp hmatch
    refine .inr ⟨t.take i, t[i], t.drop (i + 1), ?_, hlive, hcallee, hserial, hcaller, ?_⟩
    · rw [getElem_cons_drop, take_append_drop]
    · simp only [getElem?_eq_getElem hlt, Option.map_some, hcaller, mk.injEq, and_true]
      rw [modify_eq_take_cons_drop hlt]
      rfl

theorem gone_append_cons (pre post : Replies) (e e' : ReplyEnt) :
    gone (pre ++ e :: post) (pre ++ e' :: post) = if e.live && !e'.live then [e] else [] := by
  induction pre with
  | nil => simp [gone_self]
  | cons x pre ih => simp [ih]

/-- An operation other than `record` keeps or ends the call of each slot, and answers
to the callers of those that ended, except for callers that are gone themselves. -/
theorem ReplyOp.apply_slots (hquiet : op.Quiet t) (hrec : op.recorded = []) :
    List.Forall₂ (SlotStep op) t (op.apply t).1 ∧ (op.apply t).2 =
        ((gone t (op.apply t).1).filter (fun r => causeOf op r ≠ .callerGone)).map (fun r => (r.caller, r.serial)) := by
  cases op with
  | record callee serial caller now => cases hrec
  | reply callee serial caller =>
    simp only [ReplyOp.apply]
    rcases repliesMatch_cases t callee serial caller with ⟨heq, -⟩ | ⟨pre, e, post, rfl, hlive, rfl, rfl, rfl, heq⟩
    · rw [heq]
      exact ⟨forall₂_same.mpr fun e _ => .keep, by simp [gone_self]⟩
    · rw [heq]
      constructor
      · have hsame (l : Replies) : List.Forall₂ (SlotStep (.reply e.callee e.serial e.caller)) l l :=
          forall₂_same.mpr fun _ _ => .keep
        exact rel_append (hsame pre) (.cons (.finish hlive .replied) (hsame post))
      · simp [gone_append_cons, hlive, causeOf]
  | reap now =>
    simp only [ReplyOp.apply, repliesReapExpired_eq]
    constructor
    · refine forall₂_map _ (fun r => r.live && decide (r.deadline ≤ now)) ?_ t
      intro e he
      obtain ⟨hlive, hdue⟩ : e.live = true ∧ e.deadline ≤ now := by simpa using he
      exact ⟨hlive, .timedOut hdue⟩
    · rw [gone_map (fun r => r.live && decide (r.deadline ≤ now)) (by simp +contextual)]
      simp [causeOf]
  | purge c =>
    simp only [ReplyOp.apply, repliesPurge_eq]
    have hcaller : ∀ r ∈ t, (r.live && (decide (r.caller = c) || decide (r.callee = c))) = true → r.caller = c := by
      intro r hr h
      obtain ⟨hlive, hc | hc⟩ : r.live = true ∧ (r.caller = c ∨ r.callee = c) := by simpa using h
      · exact hc
      · exact hquiet r hr hlive hc
    constructor
    · rw [forall₂_map_right_iff, forall₂_same]
      intro e he
      by_cases h : (e.live && (decide (e.caller = c) || decide (e.callee = c))) = true
      · rw [if_pos h]
        have hc := hcaller e he h
        refine .finish (Bool.and_eq_true_iff.mp h).1 ?_
        subst hc
        rw [show causeOf (.purge e.caller) e = .callerGone from if_pos rfl]
        exact .callerPurged
      · rw [if_neg h]
        exact .keep
    · rw [gone_map _ (by simp +contextual), filter_filter, eq_comm, map_eq_nil_iff, filter_eq_nil_iff]
      intro r hr h
      obtain ⟨hne, hdies⟩ := Bool.and_eq_true_iff.mp h
      simp [causeOf, hcaller r hr hdies] at hne
  | disconnect c =>
    simp only [ReplyOp.apply, repliesPurge_eq]
    constructor
    · refine forall₂_map _ (fun r => r.live && (decide (r.caller = c) || decide (r.callee = c))) ?_ t
      intro e he
      obtain ⟨hlive, hc⟩ : e.live = true ∧ (e.caller = c ∨ e.callee = c) := by simpa using he
      refine ⟨hlive, ?_⟩
      by_cases hcaller : e.caller = c
      · subst hcaller
        rw [show causeOf (.disconnect e.caller) e = .callerGone from if_pos rfl]
        exact .callerGone
      · obtain rfl : e.callee = c := hc.resolve_left hcaller
        rw [show causeOf (.disconnect e.callee) e = .calleeGone from if_neg hcaller]
        exact .calleeGone hcaller
    · rw [gone_map _ (by simp +contextual), filter_filter, repliesPendingOn]
      congr 1
      apply filter_congr
      intro r _
      by_cases hcaller : r.caller = c
      · by_cases hcallee : r.callee = c
        · simp [causeOf, hcaller, hcallee]
        · simp [causeOf, hcaller]
      · by_cases hcallee : r.callee = c
        · simp [causeOf, hcaller, hcallee]
        · simp [causeOf, hcaller, hcallee]

theorem repliesRecord_cases (t : Replies) (callee : ConnId) (serial : Nat) (caller : ConnId) (now : Int) :
    let new : ReplyEnt :=
      { callee := callee, caller := caller, serial := serial, live := true, deadline := now + replyTimeoutMs }
    (∃ pre e post, t = pre ++ e :: post ∧ e.live = false ∧
        repliesRecord t callee serial caller now = pre ++ new :: post) ∨
      repliesRecord t callee serial caller now = t ++ [new] := by
  intro new
  unfold repliesRecord
  cases hidx : t.findIdx? (fun r => !r.live) with
  | none => exact .inr rfl
  | some i =>
    obtain ⟨hlt, hdead, -⟩ := findIdx?_eq_some_iff_getElem.mp hidx
    refine .inl ⟨t.take i, t[i], t.drop (i + 1), ?_, by simpa using hdead, ?_⟩
    · rw [getElem_cons_drop, take_append_drop]
    · simp only
      rw [set_eq_take_append_cons_drop, if_pos hlt]

/-! ## The observer -/

/-- The numbers of the calls in the slots, after the table became `t'`; a slot that
has come to life, or is new, holds call `n`. -/
def observe (n : Nat) : List (Nat × ReplyEnt) → Replies → List (Nat × ReplyEnt)
  | [], t' => t'.map (fun e => (n, e))
  | _ :: _, [] => []
  | p :: slots, e' :: t' => (if !p.2.live && e'.live then n else p.1, e') :: observe n slots t'

def ended : List (Nat × ReplyEnt) → Replies → List (Nat × ReplyEnt)
  | p :: slots, e' :: t' => if p.2.live && !e'.live then p :: ended slots t' else ended slots t'
  | _, _ => []

def liveCalls (slots : List (Nat × ReplyEnt)) : List Nat :=
  (slots.filter (fun p => p.2.live)).map fst

theorem map_snd_ended (t' : Replies) : (ended slots t').map snd = gone (slots.map snd) t' := by
  induction slots generalizing t' with
  | nil => rfl
  | cons p slots ih =>
    cases t' with
    | nil => simp [ended]
    | cons e' t' =>
      by_cases h : (p.2.live && !e'.live) = true
      · simp [ended, h, ih]
      · simp [ended, h, ih]

theorem map_snd_observe (h : slots.length ≤ t'.length) : (observe n slots t').map snd = t' := by
  induction slots generalizing t' with
  | nil => simp [observe]
  | cons p slots ih =>
    cases t' with
    | nil => simp at h
    | cons e' t' => simp [observe, ih (Nat.le_of_succ_le_succ h)]

theorem observe_cons (p : Nat × ReplyEnt) (slots : List (Nat × ReplyEnt)) (e' : ReplyEnt) (t' : Replies) :
    observe n (p :: slots) (e' :: t') = (if !p.2.live && e'.live then n else p.1, e') :: observe n slots t' := rfl

theorem observe_self : observe n slots (slots.map snd) = slots := by
  induction slots with
  | nil => rfl
  | cons p slots ih => simp [observe, ih]

theorem observe_ended {slots : List (Nat × ReplyEnt)} (h : List.Forall₂ (SlotStep op) (slots.map snd) t') :
    ((ended slots t').map fst ++ liveCalls (observe n slots t')).Perm (liveCalls slots) ∧
      (∀ p ∈ observe n slots t', p.2.live = true → p ∈ slots) ∧
      (∀ p ∈ ended slots t', p ∈ slots ∧ p.2.live = true ∧ Happens p.2.call (causeOf op p.2) op) := by
  induction slots generalizing t' with
  | nil =>
    cases h
    exact ⟨.refl _, by simp [observe], by simp [ended]⟩
  | cons p slots ih =>
    cases t' with
    | nil => cases h
    | cons e' t' =>
      obtain ⟨hstep, hrest⟩ := forall₂_cons.mp h
      obtain ⟨hperm, hkept, hgone⟩ := ih hrest
      have hkept' : ∀ q ∈ observe n slots t', q.2.live = true → q ∈ p :: slots :=
        fun q hq hlive => mem_cons_of_mem _ (hkept q hq hlive)
      have hgone' : ∀ q ∈ ended slots t', q ∈ p :: slots ∧ q.2.live = true ∧ Happens q.2.call (causeOf op q.2) op :=
        fun q hq => ⟨mem_cons_of_mem _ (hgone q hq).1, (hgone q hq).2⟩
      cases hstep with
      | keep =>
        have hhead : observe n (p :: slots) (p.2 :: t') = p :: observe n slots t' := by simp [observe_cons]
        have hended : ended (p :: slots) (p.2 :: t') = ended slots t' := by simp [ended]
        rw [hhead, hended]
        refine ⟨?_, ?_, hgone'⟩
        · cases hlive : p.2.live with
          | true =>
            simp only [liveCalls, filter_cons, hlive, if_true, map_cons]
            exact (perm_middle).trans (hperm.cons _)
          | false => simpa [liveCalls, hlive] using hperm
        · intro q hq hlive
          rcases mem_cons.mp hq with rfl | hq
          · exact mem_cons_self
          · exact hkept' q hq hlive
      | finish hlive hcause =>
        have hhead : observe n (p :: slots) (p.2.dead :: t') = (p.1, p.2.dead) :: observe n slots t' := by
          simp [observe_cons]
        have hended : ended (p :: slots) (p.2.dead :: t') = p :: ended slots t' := by simp [ended, hlive]
        rw [hhead, hended]
        refine ⟨?_, ?_, ?_⟩
        · simpa [liveCalls, hlive] using hperm
        · intro q hq hqlive
          rcases mem_cons.mp hq with rfl | hq
          · cases hqlive
          · exact hkept' q hq hqlive
        · intro q hq
          rcases mem_cons.mp hq with rfl | hq
          · exact ⟨mem_cons_self, hlive, hcause⟩
          · exact hgone' q hq

theorem observe_record {new : ReplyEnt} (hnew : new.live = true)
    (h : (∃ pre e post, slots.map snd = pre ++ e :: post ∧ e.live = false ∧ t' = pre ++ new :: post) ∨
      t' = slots.map snd ++ [new]) :
    ended slots t' = [] ∧ (liveCalls (observe n slots t')).Perm (n :: liveCalls slots) ∧
      ∀ p ∈ observe n slots t', p.2.live = true → p ∈ slots ∨ p = (n, new) := by
  induction slots generalizing t' with
  | nil =>
    rcases h with ⟨pre, e, post, hnil, -⟩ | rfl
    · cases pre with
      | nil => cases hnil
      | cons _ _ => cases hnil
    · simp [observe, ended, liveCalls, hnew]
  | cons p slots ih =>
    -- the slots before the one that is taken
    have hskip (t'' : Replies)
        (hrest : (∃ pre e post, slots.map snd = pre ++ e :: post ∧ e.live = false ∧ t'' = pre ++ new :: post) ∨
          t'' = slots.map snd ++ [new]) :
        ended (p :: slots) (p.2 :: t'') = [] ∧
          (liveCalls (observe n (p :: slots) (p.2 :: t''))).Perm (n :: liveCalls (p :: slots)) ∧
          ∀ q ∈ observe n (p :: slots) (p.2 :: t''), q.2.live = true → q ∈ p :: slots ∨ q = (n, new) := by
      obtain ⟨hended, hperm, hmem⟩ := ih hrest
      have hhead : observe n (p :: slots) (p.2 :: t'') = p :: observe n slots t'' := by simp [observe_cons]
      rw [hhead]
      refine ⟨by simp [ended, hended], ?_, ?_⟩
      · cases hlive : p.2.live with
        | true =>
          simp only [liveCalls, filter_cons, hlive, if_true, map_cons]
          exact (hperm.cons _).trans (List.Perm.swap ..)
        | false => simpa [liveCalls, hlive] using hperm
      · intro q hq hlive
        rcases mem_cons.mp hq with rfl | hq
        · exact .inl mem_cons_self
        · exact (hmem q hq hlive).imp_left (mem_cons_of_mem _)
    rcases h with ⟨pre, e, post, heq, hdead, rfl⟩ | rfl
    · cases pre with
      | nil =>
        obtain ⟨rfl, rfl⟩ : p.2 = e ∧ slots.map snd = post := by simpa using heq
        have hhead : observe n (p :: slots) (new :: slots.map snd) = (n, new) :: slots := by
          simp [observe_cons, hdead, hnew, observe_self]
        have hnone : ended slots (slots.map snd) = [] := by
          have := map_snd_ended slots (slots.map snd)
          rw [gone_self, map_eq_nil_iff] at this
          exact this
        rw [nil_append, hhead]
        refine ⟨by simp [ended, hdead, hnone], by simp [liveCalls, hnew, hdead], ?_⟩
        intro q hq _
        rcases mem_cons.mp hq with rfl | hq
        · exact .inr rfl
        · exact .inl (mem_cons_of_mem _ hq)
      | cons x pre =>
        obtain ⟨rfl, hrest⟩ : p.2 = x ∧ slots.map snd = pre ++ e :: post := by simpa using heq
        exact hskip _ (.inl ⟨pre, e, post, hrest, hdead, rfl⟩)
    · exact hskip _ (.inr rfl)

/-! ## Whole runs -/

/-- The table with the number of the call in each slot, all calls in the order in
which they were recorded, and those resolved so far. -/
structure Calls where
  slots : List (Nat × ReplyEnt)
  calls : List Call
  log : List (Nat × Cause)

variable {op : ReplyOp} {cause : Cause} {s : Calls}

namespace Calls

def start : Calls := { slots := [], calls := [], log := [] }

def table (s : Calls) : Replies :=
  s.slots.map snd

def resolved (s : Calls) (op : ReplyOp) : List (Nat × Cause) :=
  (ended s.slots (op.apply s.table).1).map (fun p => (p.1, causeOf op p.2))

def step (s : Calls) (op : ReplyOp) : Calls where
  slots := observe s.calls.length s.slots (op.apply s.table).1
  calls := s.calls ++ op.recorded
  log := s.log ++ s.resolved op

/-- Each call is resolved once or live once, live slots hold the calls as recorded,
and someone was told of every call that is resolved, if there was anyone to tell. -/
structure Accounted (s : Calls) : Prop where
  once : (s.log.map fst ++ liveCalls s.slots).Perm (List.range s.calls.length)
  same : ∀ p ∈ s.slots, p.2.live = true → s.calls[p.1]? = some p.2.call
  told : ∀ x ∈ s.log, x.2 ≠ .silent

structure Just (s : Calls) (op : ReplyOp) : Prop where
  /-- the observer follows the table -/
  follows : (s.step op).table = (op.apply s.table).1
  /-- a call is resolved only by an event for it -/
  caused : ∀ x ∈ s.resolved op, ∃ k, s.calls[x.1]? = some k ∧ Happens k x.2 op
  /-- the answers are to the callers of the calls resolved, unless they are gone -/
  answered : (op.apply s.table).2 =
    ((s.resolved op).filter (fun x => x.2 ≠ .callerGone)).filterMap
      (fun x => s.calls[x.1]?.map (fun k => (k.caller, k.serial)))
  /-- an event for a live call resolves one with its callee, caller and serial -/
  effective : ∀ p ∈ s.slots, p.2.live = true → ∀ cause, Happens p.2.call cause op →
    ∃ x ∈ s.resolved op, ∃ k, s.calls[x.1]? = some k ∧
      k.callee = p.2.callee ∧ k.caller = p.2.caller ∧ k.serial = p.2.serial

theorem Accounted.start : Calls.start.Accounted where
  once := .refl _
  same := by simp [Calls.start]
  told := by simp [Calls.start]

theorem apply_length (t : Replies) (op : ReplyOp) : t.length ≤ (op.apply t).1.length := by
  cases op with
  | record callee serial caller now =>
    rcases repliesRecord_cases t callee serial caller now with ⟨pre, e, post, rfl, -, heq⟩ | heq
    · simp [ReplyOp.apply, heq]
    · simp [ReplyOp.apply, heq]
  | reply callee serial caller =>
    rcases repliesMatch_cases t callee serial caller with ⟨heq, -⟩ | ⟨pre, e, post, rfl, -, -, -, -, heq⟩
    · simp [ReplyOp.apply, heq]
    · simp [ReplyOp.apply, heq]
  | reap now => simp [ReplyOp.apply, repliesReapExpired]
  | purge c => simp [ReplyOp.apply, repliesPurge]
  | disconnect c => simp [ReplyOp.apply, repliesPurge]

theorem causeOf_ne_silent {k : Call} (h : Happens k cause op) : cause ≠ .silent := by
  cases h <;> simp

theorem record_of_recorded (h : op.recorded ≠ []) :
    ∃ callee serial caller now, op = .record callee serial caller now := by
  cases op with
  | record callee serial caller now => exact ⟨callee, serial, caller, now, rfl⟩
  | reply | reap | purge | disconnect => exact absurd rfl h

theorem Accounted.step (h : s.Accounted) (hquiet : op.Quiet s.table) : (s.step op).Accounted := by
  by_cases hrec : op.recorded = []
  · obtain ⟨hslots, -⟩ := ReplyOp.apply_slots hquiet hrec
    obtain ⟨hperm, hkept, hgone⟩ := observe_ended s.calls.length hslots
    have hcalls : (s.step op).calls = s.calls := by simp [Calls.step, hrec]
    refine ⟨?_, ?_, ?_⟩
    · have hfst : (s.resolved op).map fst = (ended s.slots (op.apply s.table).1).map fst := by
        simp [resolved, Function.comp_def]
      rw [hcalls]
      simp only [Calls.step, map_append, hfst, append_assoc]
      exact (hperm.append_left _).trans h.once
    · intro p hp hlive
      rw [hcalls]
      exact h.same p (hkept p hp hlive) hlive
    · intro x hx
      rcases mem_append.mp hx with hx | hx
      · exact h.told x hx
      · obtain ⟨p, hp, rfl⟩ := mem_map.mp hx
        exact causeOf_ne_silent (hgone p hp).2.2
  · obtain ⟨callee, serial, caller, now, rfl⟩ := record_of_recorded hrec
    obtain ⟨hended, hperm, hmem⟩ := observe_record s.calls.length s.slots rfl
      (repliesRecord_cases s.table callee serial caller now)
    have hnone : s.resolved (.record callee serial caller now) = [] := by
      simp [resolved, ReplyOp.apply, hended]
    have hlen : ∀ p ∈ s.slots, p.2.live = true → p.1 < s.calls.length := fun p hp hlive =>
      (List.getElem?_eq_some_iff.mp (h.same p hp hlive)).1
    refine ⟨?_, ?_, ?_⟩
    · simp only [Calls.step, hnone, append_nil, ReplyOp.recorded, length_append, length_singleton,
        range_succ, ReplyOp.apply]
      calc (s.log.map fst ++ liveCalls (observe s.calls.length s.slots _)).Perm
            (s.log.map fst ++ s.calls.length :: liveCalls s.slots) := hperm.append_left _
        _ |>.Perm (s.calls.length :: (s.log.map fst ++ liveCalls s.slots)) := perm_middle
        _ |>.Perm (s.calls.length :: List.range s.calls.length) := h.once.cons _
        _ |>.Perm (List.range s.calls.length ++ [s.calls.length]) := (perm_append_singleton _ _).symm
    · intro p hp hlive
      rcases hmem p hp hlive with hp | rfl
      · simp only [Calls.step]
        rw [getElem?_append_left (hlen p hp hlive)]
        exact h.same p hp hlive
      · simp [Calls.step, ReplyOp.recorded, ReplyEnt.call]
    · intro x hx
      simp only [Calls.step, hnone, append_nil] at hx
      exact h.told x hx

theorem gone_of_happens {e : ReplyEnt} (he : e ∈ t) (hlive : e.live = true) (h : Happens e.call cause op) :
    ∃ r ∈ gone t (op.apply t).1, r.callee = e.callee ∧ r.caller = e.caller ∧ r.serial = e.serial := by
  cases h with
  | replied =>
    simp only [ReplyOp.apply]
    rcases repliesMatch_cases t e.call.callee e.call.serial e.call.caller with
      ⟨-, hnone⟩ | ⟨pre, r, post, rfl, hr, hcallee, hserial, hcaller, heq⟩
    · exact absurd ⟨rfl, rfl, rfl⟩ (hnone e he hlive)
    · refine ⟨r, ?_, hcallee, hcaller, hserial⟩
      rw [heq, gone_append_cons]
      simp [hr]
  | timedOut hdue =>
    refine ⟨e, ?_, rfl, rfl, rfl⟩
    simp only [ReplyOp.apply, repliesReapExpired_eq]
    rw [gone_map _ (by simp +contextual)]
    simpa [he, hlive, ReplyEnt.call] using hdue
  | _ =>
    -- one of the two is gone
    refine ⟨e, ?_, rfl, rfl, rfl⟩
    simp only [ReplyOp.apply, repliesPurge_eq]
    rw [gone_map _ (by simp +contextual)]
    simp [he, hlive, ReplyEnt.call]

theorem Accounted.just (h : s.Accounted) (hquiet : op.Quiet s.table) : s.Just op := by
  have hfollows : (s.step op).table = (op.apply s.table).1 := by
    refine map_snd_observe _ _ ?_
    simpa [table] using apply_length s.table op
  by_cases hrec : op.recorded = []
  · obtain ⟨hslots, hout⟩ := ReplyOp.apply_slots hquiet hrec
    obtain ⟨-, -, hgone⟩ := observe_ended s.calls.length hslots
    have hcall : ∀ p ∈ ended s.slots (op.apply s.table).1, s.calls[p.1]? = some p.2.call :=
      fun p hp => h.same p (hgone p hp).1 (hgone p hp).2.1
    refine ⟨hfollows, ?_, ?_, ?_⟩
    · intro x hx
      obtain ⟨p, hp, rfl⟩ := mem_map.mp hx
      exact ⟨p.2.call, hcall p hp, (hgone p hp).2.2⟩
    · rw [hout, table, ← map_snd_ended s.slots, ← table, resolved]
      generalize ended s.slots (op.apply s.table).1 = l at hcall ⊢
      induction l with
      | nil => rfl
      | cons p l ih =>
        have hp := hcall p mem_cons_self
        have hl := ih fun q hq => hcall q (mem_cons_of_mem _ hq)
        by_cases hc : causeOf op p.2 = .callerGone
        · simpa [hc] using hl
        · simpa [hc, hp, ReplyEnt.call] using hl
    · intro p hp hlive cause hcause
      obtain ⟨r, hr, hkey⟩ := gone_of_happens (mem_map_of_mem hp) hlive hcause
      rw [← map_snd_ended] at hr
      obtain ⟨q, hq, rfl⟩ := mem_map.mp hr
      exact ⟨_, mem_map_of_mem hq, q.2.call, hcall q hq, hkey⟩
  · obtain ⟨callee, serial, caller, now, rfl⟩ := record_of_recorded hrec
    obtain ⟨hended, -, -⟩ := observe_record s.calls.length s.slots rfl
      (repliesRecord_cases s.table callee serial caller now)
    have hnone : s.resolved (.record callee serial caller now) = [] := by
      simp [resolved, ReplyOp.apply, hended]
    refine ⟨hfollows, by simp [hnone], by simp [hnone, ReplyOp.apply], ?_⟩
    intro p hp hlive cause hcause
    cases hcause

/-- In every interleaving in which a purge on its own is of no connection that others
wait on: every call recorded is resolved at most once and otherwise live, only by
an event for it, and the events that owe an answer give it. -/
theorem calls_resolved_once {s : Calls} (hrun : Run.Reaches Calls.step (fun s op => op.Quiet s.table) Calls.start s) :
    s.Accounted ∧ ∀ op : ReplyOp, op.Quiet s.table → s.Just op := by
  have hacc : s.Accounted := hrun.invariant Accounted .start fun _ _ h hop => h.step hop
  exact ⟨hacc, fun op hop => hacc.just hop⟩

/-- 1 calls 2 and 3 calls 2 with the same serial; 2 answers 1 and hangs up. -/
def answeredAndLeft : List ReplyOp :=
  [.record 2 5 1 0, .record 2 5 3 0, .reply 2 5 1, .disconnect 2]

instance (t : Replies) : (op : ReplyOp) → Decidable (op.Quiet t)
  | .purge _ => inferInstanceAs (Decidable (∀ _ ∈ _, _))
  | .record .. | .reply .. | .reap _ | .disconnect _ => .isTrue trivial

theorem calls_resolved_once_both :
    (answeredAndLeft.foldl Calls.step Calls.start).log = [(0, .replied), (1, .calleeGone)] ∧
      (answeredAndLeft.foldl Calls.step Calls.start).Accounted := by
  have hall : Run.AllOk Calls.step (fun s op => op.Quiet s.table) Calls.start answeredAndLeft := by decide +kernel
  exact ⟨by decide +kernel, (calls_resolved_once hall.reaches).1⟩

/-- 1 calls 2, and the entries of 2 are purged without a look at who waits. -/
theorem purged_silently : ([.record 2 5 1 0, .purge 2].foldl Calls.step Calls.start).log = [(0, .silent)] ∧
      (ReplyOp.apply (Calls.start.step (.record 2 5 1 0)).table (.purge 2)).2 = [] := by
  decide +kernel

end Calls

end SchemaInit.Dbus
