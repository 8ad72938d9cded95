/-
# `SchemaInit.Dbus.ReloadRun` — the live reload over whole runs

Three questions about `reload_request`, `reload_start`, `reload_finish` and the
ways a reload ends:

* how many dissolvers run at a time,
* who is answered, how often, and by which reload,
* where the policy and the activation table come from.

`Performs` says that the broker does just the acts listed for a step.  `Books` is kept
from acts alone; it knows nothing of `g_rl`.  What an act may do is said in terms of the
books (`Books.Allows`):

| act | allowed when |
| :-- | :-- |
| `forked` | no dissolver runs |
| `ended` | this one runs |
| `replied` | a request made before the reload began is open |
| `restarting`, `lost` | a request is open |

`Settled` ties the books to the broker, and `reload_accounts` is the result: in
every run every act is allowed, requests and replies balance for every caller
that is still there, and policy and table change together, or not at all.
-/
import SchemaInit.Dbus.Aside

namespace SchemaInit.Dbus

open Bus Option List Broker KeyedList

variable {b b' b₁ : Broker} {w : Waiter} {p p' : Policy × List SvcEnt} {pol : Option Policy}
    {caller : Option Waiter} {l : Label} {env : Env}

/-! ## Acts and books -/

/-- What the reload does that matters for the three questions. -/
inductive Act where
  /-- a caller's `ReloadConfig` is taken on -/
  | asked (w : Waiter)
  /-- a reload begins, with this table -/
  | began (tab : List SvcEnt)
  | forked (pid : Int)
  /-- the dissolver is reaped, or killed -/
  | ended (pid : Int)
  /-- a reload ends: the policy it dissolved, and why it failed if it did -/
  | finished (pol : Option Policy) (err : Option Bytes)
  /-- the caller is answered by the reload that ends -/
  | replied (w : Waiter) (err : Option Bytes)
  /-- the caller is told that the broker restarts -/
  | restarting (w : Waiter)
  /-- the caller is gone -/
  | lost (w : Waiter)
  deriving DecidableEq

structure Books where
  /-- the requests of callers -/
  asked : List Waiter
  /-- those made before the last reload began -/
  covered : List Waiter
  /-- those answered -/
  replies : List Waiter
  /-- those whose caller was gone -/
  lost : List Waiter
  /-- the dissolvers that run -/
  kids : List Int
  /-- the table of the last reload that began -/
  tab : List SvcEnt
  /-- policy and table -/
  pair : Policy × List SvcEnt

variable {s : Books} {as as' : List Act}

namespace Books

def settled (s : Books) (w : Waiter) : Nat :=
  s.replies.count w + s.lost.count w

def note (s : Books) : Act → Books
  | .asked w => { s with asked := s.asked ++ [w] }
  | .began tab => { s with covered := s.asked, tab := tab }
  | .forked pid => { s with kids := s.kids ++ [pid] }
  | .ended pid => { s with kids := s.kids.erase pid }
  | .finished pol none => { s with pair := (pol.getD s.pair.1, s.tab) }
  | .finished _ (some _) => s
  | .replied w _ | .restarting w => { s with replies := s.replies ++ [w] }
  | .lost w => { s with lost := s.lost ++ [w] }

def after (s : Books) (as : List Act) : Books :=
  as.foldl note s

def Allows (s : Books) : Act → Prop
  | .asked _ | .began _ | .finished _ _ => True
  | .forked _ => s.kids = []
  | .ended pid => pid ∈ s.kids
  | .replied w _ => s.settled w < s.covered.count w
  | .restarting w | .lost w => s.settled w < s.asked.count w

def Lawful : Books → List Act → Prop
  | _, [] => True
  | s, a :: as => s.Allows a ∧ Lawful (s.note a) as

theorem after_append (s : Books) (as as' : List Act) : s.after (as ++ as') = (s.after as).after as' :=
  foldl_append

theorem Lawful.append (h : s.Lawful as) (h' : (s.after as).Lawful as') : s.Lawful (as ++ as') := by
  induction as generalizing s with
  | nil => exact h'
  | cons a as ih => exact ⟨h.1, ih h.2 h'⟩

end Books

namespace Broker

/-! ## The acts of each function -/

def answer (b : Broker) (err : Option Bytes) (w : Waiter) : Act :=
  if w.connId ∈ b.ids then .replied w err else .lost w

def settleActs (b : Broker) (pol : Option Policy) (err : Option Bytes) : List Act :=
  .finished pol (b.reloadVerdict pol err) :: b.reload.run.map (b.answer (b.reloadVerdict pol err))

def beginActs (env : Env) (b : Broker) : List Act :=
  .began (b.reloadBegin env).1.reload.tab ::
    (match (b.reloadBegin env).2 with
      | none => (b.reloadBegin env).1.reload.pid.toList.map .forked
      | some _ => [])

def finishActs (env : Env) : Nat → Broker → Option Policy → Option Bytes → List Act
  | 0, b, pol, err => b.settleActs pol err
  | rounds + 1, b, pol, err =>
    b.settleActs pol err ++
      (let b := b.reloadSettle env pol err
      if b.reload.dirty then
        let b := { b with reload.dirty := false, reload.run := b.reload.next, reload.next := [] }
        b.beginActs env ++
          (match b.reloadBegin env with
            | (_, none) => []
            | (b, some err) => finishActs env rounds b none err)
      else [])

def startActs (env : Env) (b : Broker) : List Act :=
  b.beginActs env ++
    (match b.reloadBegin env with
      | (_, none) => []
      | (b, some err) => finishActs env 1 b none err)

def requestActs (env : Env) (b : Broker) (caller : Option Waiter) : List Act :=
  caller.toList.map .asked ++
    (if b.reload.running then []
    else { b with reload.run := b.reload.run ++ caller.toList }.startActs env)

def reapedActs (env : Env) (b : Broker) (outcome : Except Bytes Policy) : List Act :=
  match b.reload.pid with
  | none => []
  | some pid =>
    let b := { b with reload.pid := none }
    .ended pid ::
      (match outcome with
        | .ok pol => finishActs env 1 b (some pol) none
        | .error text => finishActs env 1 b none (some text))

def timeoutActs (env : Env) (b : Broker) : List Act :=
  match b.reload.pid with
  | none => []
  | some pid =>
    if env.now ≥ b.reload.deadline then
      .ended pid :: finishActs env 1 { b with reload.pid := none } none
        (some (cstr "dissolver timed out"))
    else []

def abortActs (b : Broker) : List Act :=
  b.reload.pid.toList.map .ended ++
    (b.reload.run ++ b.reload.next).map (fun w => if w.connId ∈ b.ids then .restarting w else .lost w)

end Broker

/-! ## Who is still there -/

namespace Broker

abbrev Anyone : ConnId → Prop := fun _ => True

theorem Talk.ids (h : Talk b b') : b'.ids = b.ids := by
  rw [← ids_bus, ← ids_bus, h.steady.bus]

end Broker

/-! ## Books and broker -/

structure Kept (b : Broker) (s : Books) : Prop where
  kids : s.kids = b.reload.pid.toList
  balance : ∀ w, s.asked.count w = s.settled w + b.reload.run.count w + b.reload.next.count w
  clean : b.reload.dirty = false → b.reload.next = []
  pair : s.pair = (b.policy, b.svctab)
  seen : ∀ w ∈ s.asked, w.connId < b.nextId
  lost : ∀ w ∈ s.lost, w.connId ∉ b.ids

structure Underway (b : Broker) (s : Books) : Prop extends Kept b s where
  running : b.reload.running = true
  covered : ∀ w, s.covered.count w = s.settled w + b.reload.run.count w
  tab : s.tab = b.reload.tab

/-- Between two steps nothing runs, or the dissolver does, or the broker restarts. -/
inductive Settled (b : Broker) (s : Books) : Prop
  | idle (h : Kept b s) (running : b.reload.running = false) (run : b.reload.run = []) (dirty : b.reload.dirty = false)
      (pid : b.reload.pid = none)
  | waiting (h : Underway b s) (pid : b.reload.pid.isSome = true) (system : b.systemBus = true ∧ b.dissolves = true)
  | stopped (h : Kept b s) (pid : b.reload.pid = none) (run : b.reload.run = [] ∧ b.reload.next = [])
      (draining : b.draining = true)

theorem Settled.kept (h : Settled b s) : Kept b s := by
  cases h with
  | idle h => exact h
  | waiting h => exact h.toKept
  | stopped h => exact h

/-- Answers to waiters whose requests are open.  `limit` is what an answer may refer to: the
covered requests, or all. -/
theorem Books.lawful_answers (here : ConnId → Bool) (reply : Waiter → Act) {limit : List Waiter}
    (hreply : ∀ w, (∀ s : Books, s.note (reply w) = { s with replies := s.replies ++ [w] }) ∧
      ∀ s' : Books, s'.asked = s.asked → s'.covered = s.covered → s'.settled w < limit.count w → s'.Allows (reply w))
    (ws : List Waiter) (hlimit : ∀ w, s.settled w + ws.count w ≤ limit.count w)
    (hasked : ∀ w, limit.count w ≤ s.asked.count w) :
    s.Lawful (ws.map fun w => if here w.connId then reply w else .lost w) ∧
      s.after (ws.map fun w => if here w.connId then reply w else .lost w) = { s with
          replies := s.replies ++ ws.filter (fun w => here w.connId)
          lost := s.lost ++ ws.filter (fun w => !here w.connId) } := by
  induction ws generalizing s with
  | nil => simp [Books.Lawful, Books.after]
  | cons w ws ih =>
    have hw := hlimit w
    rw [count_cons_self] at hw
    have hcount (x : Waiter) : (w :: ws).count x = ws.count x + [w].count x := by
      rw [count_cons, count_cons, count_nil]
      omega
    by_cases hhere : here w.connId = true
    · have hnote := (hreply w).1 s
      obtain ⟨hlaw, hafter⟩ := ih (s := s.note (reply w)) (by
          rw [hnote]
          exact hreply)
        (by
          intro x
          have hx := hlimit x
          rw [hcount] at hx
          simp only [hnote, Books.settled, count_append] at hx ⊢
          omega)
        (by
          rw [hnote]
          exact hasked)
      simp only [map_cons, if_pos hhere]
      refine ⟨⟨(hreply w).2 s rfl rfl (by omega), hlaw⟩, ?_⟩
      show (s.note (reply w)).after _ = _
      rw [hafter, hnote]
      simp [hhere]
    · obtain ⟨hlaw, hafter⟩ := ih (s := s.note (.lost w)) hreply (by
          intro x
          have hx := hlimit x
          rw [hcount] at hx
          simp only [Books.note, Books.settled, count_append] at hx ⊢
          omega)
        hasked
      simp only [map_cons, if_neg hhere]
      refine ⟨⟨lt_of_lt_of_le (show s.settled w < limit.count w by omega) (hasked w), hlaw⟩, ?_⟩
      show (s.note (.lost w)).after _ = _
      rw [hafter]
      simp [Books.note, hhere]

theorem count_filter_not (ws : List Waiter) (p : Waiter → Bool) (w : Waiter) :
    (ws.filter p).count w + (ws.filter (fun w => !p w)).count w = ws.count w := by
  induction ws with
  | nil => rfl
  | cons x ws ih =>
    by_cases hp : p x = true
    · simp only [filter_cons, hp, if_true, Bool.not_true, Bool.false_eq_true, if_false, count_cons]
      omega
    · simp only [filter_cons, hp, Bool.not_false, Bool.false_eq_true, if_false, if_true, count_cons]
      omega

/-! ## The functions of a reload -/

def Broker.pairAfter (b : Broker) (pol : Option Policy) : Option Bytes → Policy × List SvcEnt
  | none => (pol.getD b.policy, b.reload.tab)
  | some _ => (b.policy, b.svctab)

structure Broker.Finished (b : Broker) (pol : Option Policy) (err : Option Bytes) (b' : Broker) : Prop where
  reload : b'.reload = { b.reload with run := [], running := false, tab := [] }
  pair : (b'.policy, b'.svctab) = b.pairAfter pol (b.reloadVerdict pol err)
  ids : b'.ids = b.ids
  nextId : b'.nextId = b.nextId
  systemBus : b'.systemBus = b.systemBus
  dissolves : b'.dissolves = b.dissolves
  draining : b'.draining = b.draining

theorem Broker.finished_reloadSettle (env : Env) (b : Broker) (pol : Option Policy) (err : Option Bytes) :
    b.Finished pol err (b.reloadSettle env pol err) := by
  unfold reloadSettle
  dsimp only
  generalize hverdict : b.reloadVerdict pol err = verdict
  -- the state the answers are given in
  generalize hb₁ : ({ b.reloadSwap pol verdict with
    reload := { (b.reloadSwap pol verdict).reload with tab := [] } } : Broker) = b₁
  have hreload : b₁.reload = { b.reload with tab := [] } := by
    subst hb₁
    cases verdict <;> rfl
  have hpair : (b₁.policy, b₁.svctab) = b.pairAfter pol verdict := by
    subst hb₁
    cases verdict <;> rfl
  have hids : b₁.ids = b.ids ∧ b₁.nextId = b.nextId := by
    subst hb₁
    cases verdict <;> exact ⟨rfl, rfl⟩
  have hfields : b₁.systemBus = b.systemBus ∧ b₁.dissolves = b.dissolves ∧ b₁.draining = b.draining := by
    subst hb₁
    cases verdict <;> exact ⟨rfl, rfl, rfl⟩
  generalize (b.reloadSwap pol verdict).reload.run = ws
  have htalk := talk_reloadReply env b₁ ws verdict
  have haside : Broker.Aside Broker.Anyone b₁ _ := htalk.aside
  constructor
  · rw [haside.reload, hreload]
  · rw [hverdict, ← hpair]
    exact Prod.ext haside.policy haside.svctab
  · exact htalk.ids.trans hids.1
  · exact htalk.steady.nextId.trans hids.2
  · exact haside.systemBus.trans hfields.1
  · exact haside.dissolves.trans hfields.2.1
  · exact haside.draining.trans hfields.2.2

theorem Underway.after_settleActs (h : Underway b s) (pol : Option Policy) (err : Option Bytes) :
    s.Lawful (b.settleActs pol err) ∧ s.after (b.settleActs pol err) = { s with
          pair := b.pairAfter pol (b.reloadVerdict pol err)
          replies := s.replies ++ b.reload.run.filter (fun w => decide (w.connId ∈ b.ids))
          lost := s.lost ++ b.reload.run.filter (fun w => !decide (w.connId ∈ b.ids)) } := by
  have hnote (verdict : Option Bytes) :
      s.note (.finished pol verdict) = { s with pair := b.pairAfter pol verdict } := by
    cases verdict with
    | none => simp [Books.note, pairAfter, h.pair, h.tab]
    | some text => simp [Books.note, pairAfter, ← h.pair]
  have hacts : b.settleActs pol err = .finished pol (b.reloadVerdict pol err) :: b.reload.run.map fun w =>
        if decide (w.connId ∈ b.ids) = true then .replied w (b.reloadVerdict pol err) else .lost w := by
    simp only [settleActs, decide_eq_true_eq]
    rfl
  obtain ⟨hlaw, hafter⟩ := Books.lawful_answers (s := s.note (.finished pol (b.reloadVerdict pol err)))
    (fun id => decide (id ∈ b.ids)) (fun w => .replied w (b.reloadVerdict pol err))
    (fun w => ⟨fun _ => rfl, fun s' _ hcov hlt => by
      show s'.settled w < s'.covered.count w
      rw [hcov]
      exact hlt⟩) b.reload.run
    (fun w => by
      rw [hnote]
      exact le_of_eq (h.covered w).symm)
    (fun w => by
      have hb := h.balance w
      have hc := h.covered w
      rw [hnote]
      show s.covered.count w ≤ s.asked.count w
      omega)
  rw [hacts]
  refine ⟨⟨trivial, hlaw⟩, ?_⟩
  show (s.note (.finished pol (b.reloadVerdict pol err))).after _ = _
  rw [hafter, hnote]

theorem Underway.settle (h : Underway b s) (env : Env) (pol : Option Policy)
    (err : Option Bytes) : Kept (b.reloadSettle env pol err) (s.after (b.settleActs pol err)) := by
  have hfin := finished_reloadSettle env b pol err
  obtain ⟨-, hafter⟩ := h.after_settleActs pol err
  rw [hafter]
  constructor
  · rw [hfin.reload]
    exact h.kids
  · intro w
    have hb := h.balance w
    have hf := count_filter_not b.reload.run (fun w => decide (w.connId ∈ b.ids)) w
    rw [hfin.reload]
    simp only [Books.settled, count_append, count_nil] at hb ⊢
    omega
  · rw [hfin.reload]
    exact h.clean
  · exact hfin.pair.symm
  · rw [hfin.nextId]
    exact h.seen
  · intro w hw
    rw [hfin.ids]
    rcases mem_append.mp hw with hw | hw
    · exact h.lost w hw
    · simpa using (mem_filter.mp hw).2

/-- The point before `reload_start`: what waits, waits for the reload that begins. -/
structure Primed (b : Broker) (s : Books) : Prop extends Kept b s where
  pid : b.reload.pid = none
  next : b.reload.next = []
  dirty : b.reload.dirty = false

def Broker.freshTab (env : Env) (b : Broker) : List SvcEnt :=
  if b.systemBus then svctabHoldRaw env.scan b.svctab b.overrideDir else env.scan

theorem Primed.underway (h : Primed b s) (tab : List SvcEnt) :
    Underway { b with reload.running := true, reload.tab := tab } (s.note (.began tab)) where
  __ := h
  running := rfl
  covered := fun w => by
    have hb := h.balance w
    rw [h.next, count_nil, Nat.add_zero] at hb
    exact hb
  tab := rfl

/-- `reload_start` waits for the dissolver, or finishes at once; without an error it does so only
where nothing is dissolved. -/
theorem Primed.begin (h : Primed b s) (env : Env) :
    s.Lawful (b.beginActs env) ∧
      (match b.reloadBegin env with
        | (b', none) => Settled b' (s.after (b.beginActs env)) ∧ (b'.policy, b'.svctab) = (b.policy, b.svctab)
        | (b', some err) => Underway b' (s.after (b.beginActs env)) ∧ b'.reload.pid = none ∧ b'.reload.dirty = false ∧
            (b'.policy, b'.svctab) = (b.policy, b.svctab) ∧
              (err = none → ¬ (b.systemBus = true ∧ b.dissolves = true))) := by
  have hunder := h.underway (b.freshTab env)
  unfold beginActs reloadBegin
  dsimp only
  by_cases hsys : b.systemBus = false ∨ b.dissolves = false
  · rw [if_pos hsys]
    refine ⟨⟨trivial, trivial⟩, hunder, h.pid, h.dirty, rfl, fun _ hboth => ?_⟩
    rcases hsys with hsys | hsys
    · simp [hsys] at hboth
    · simp [hsys] at hboth
  · rw [if_neg hsys]
    have hboth : b.systemBus = true ∧ b.dissolves = true := by simpa using hsys
    by_cases htmp : env.policyTmp = false
    · rw [if_pos htmp]
      exact ⟨⟨trivial, trivial⟩, hunder, h.pid, h.dirty, rfl, fun herr => (nomatch herr)⟩
    · rw [if_neg htmp]
      cases env.dissolver with
      | none => exact ⟨⟨trivial, trivial⟩, hunder, h.pid, h.dirty, rfl, fun herr => (nomatch herr)⟩
      | some pid =>
        have hkids : s.kids = [] := by
          rw [h.kids, h.pid]
          rfl
        refine ⟨⟨trivial, hkids, trivial⟩, .waiting ?_ rfl hboth, rfl⟩
        exact
          { kids := by
              show s.kids ++ [pid] = [pid]
              rw [hkids]
              rfl
            __ := hunder
            running := rfl
            covered := hunder.covered
            tab := rfl }

/-- Policy and table stay, or both come from one reload that succeeds among these acts: the table
is the one it began with, and the policy the one it dissolved, if it dissolved one. -/
def Books.Swaps (s : Books) (as : List Act) (p p' : Policy × List SvcEnt) : Prop :=
  p' = p ∨ ∃ pre pol post, as = pre ++ .finished pol none :: post ∧ p' = (pol.getD p.1, (s.after pre).tab)

theorem Books.Swaps.append_right (h : s.Swaps as p p') (as' : List Act) : s.Swaps (as ++ as') p p' := by
  rcases h with h | ⟨pre, pol, post, rfl, hp⟩
  · exact .inl h
  · exact .inr ⟨pre, pol, post ++ as', by simp, hp⟩

theorem Books.Swaps.append_left (h : (s.after as).Swaps as' p p') : s.Swaps (as ++ as') p p' := by
  rcases h with h | ⟨pre, pol, post, rfl, hp⟩
  · exact .inl h
  · refine .inr ⟨as ++ pre, pol, post, by simp, ?_⟩
    rw [s.after_append]
    exact hp

theorem Underway.swaps_settle (h : Underway b s) (env : Env) (pol : Option Policy) (err : Option Bytes) :
    s.Swaps (b.settleActs pol err) (b.policy, b.svctab)
      ((b.reloadSettle env pol err).policy, (b.reloadSettle env pol err).svctab) := by
  rw [(finished_reloadSettle env b pol err).pair]
  unfold settleActs
  cases b.reloadVerdict pol err with
  | none =>
    refine .inr ⟨[], pol, _, rfl, ?_⟩
    show _ = (pol.getD b.policy, s.tab)
    rw [h.tab]
    rfl
  | some text => exact .inl rfl

/-- What a function of the reload owes: allowed acts, the books in order, and no mixed pair. -/
structure Reconciles (b : Broker) (s : Books) (as : List Act) (b' : Broker) : Prop where
  lawful : s.Lawful as
  settled : Settled b' (s.after as)
  swaps : s.Swaps as (b.policy, b.svctab) (b'.policy, b'.svctab)

theorem Underway.finishLast (h : Underway b s) (hpid : b.reload.pid = none)
    (hdirty : b.reload.dirty = false) (env : Env) (pol : Option Policy) (err : Option Bytes) :
    Reconciles b s (b.settleActs pol err) (b.reloadSettle env pol err) := by
  have hfin := finished_reloadSettle env b pol err
  refine ⟨(h.after_settleActs pol err).1, .idle (h.settle env pol err) ?_ ?_ ?_ ?_, h.swaps_settle env pol err⟩
  · rw [hfin.reload]
  · rw [hfin.reload]
  · rw [hfin.reload]
    exact hdirty
  · rw [hfin.reload]
    exact hpid

theorem Underway.finish (h : Underway b s) (hpid : b.reload.pid = none) (env : Env)
    (hpol : pol ≠ none → b.systemBus = true ∧ b.dissolves = true) (err : Option Bytes) :
    Reconciles b s (finishActs env 1 b pol err) (reloadFinish env 1 b pol err) := by
  have hfin := finished_reloadSettle env b pol err
  have hkept := h.settle env pol err
  have hlaw := (h.after_settleActs pol err).1
  have hswaps := h.swaps_settle env pol err
  unfold finishActs reloadFinish
  generalize hb₁ : b.reloadSettle env pol err = b₁ at *
  by_cases hdirty : b₁.reload.dirty = true
  · simp only [if_pos hdirty]
    have hnext : b₁.reload.run = [] := by rw [hfin.reload]
    generalize hb₂ : ({ b₁ with
      reload.dirty := false, reload.run := b₁.reload.next, reload.next := [] } : Broker) = b₂
    have hpair₂ : (b₂.policy, b₂.svctab) = (b₁.policy, b₁.svctab) := by rw [← hb₂]
    have hprimed : Primed b₂ (s.after (b.settleActs pol err)) := by
      subst hb₂
      exact
        { kids := hkept.kids
          balance := fun w => by
            have hb := hkept.balance w
            rw [hnext] at hb
            simp only [count_nil] at hb ⊢
            omega
          clean := fun _ => rfl
          __ := hkept
          pid := by
            rw [hfin.reload]
            exact hpid
          next := rfl
          dirty := rfl }
    obtain ⟨hlawBegin, hbegin⟩ := hprimed.begin env
    cases hres : b₂.reloadBegin env with
    | mk b₃ result =>
      rw [hres] at hbegin
      cases result with
      | none =>
        obtain ⟨hsettled, hpair₃⟩ := hbegin
        simp only [append_nil]
        refine ⟨hlaw.append hlawBegin, ?_, ?_⟩
        · rw [s.after_append]
          exact hsettled
        · rw [hpair₃, hpair₂]
          exact hswaps.append_right _
      | some err' =>
        obtain ⟨hunder, hpid₃, hdirty₃, hpair₃, hnone⟩ := hbegin
        have hlast := hunder.finishLast hpid₃ hdirty₃ env none err'
        simp only [finishActs, reloadFinish]
        refine ⟨hlaw.append (hlawBegin.append hlast.lawful), ?_, ?_⟩
        · rw [s.after_append, Books.after_append]
          exact hlast.settled
        · have hpairLast := (finished_reloadSettle env b₃ none err').pair
          cases err' with
          | some text =>
            rw [hpairLast]
            show s.Swaps _ _ (b₃.policy, b₃.svctab)
            rw [hpair₃, hpair₂]
            exact hswaps.append_right _
          | none =>
            -- nothing is dissolved here, so the reload before brought no policy either
            have hpolNone : pol = none := by
              by_contra hsome
              obtain ⟨hsys, hdis⟩ := hpol hsome
              refine hnone rfl ⟨?_, ?_⟩
              · rw [← hb₂]
                exact hfin.systemBus.trans hsys
              · rw [← hb₂]
                exact hfin.dissolves.trans hdis
            have hpolicy : b₃.policy = b.policy := by
              have hsame : b₃.policy = b₁.policy := congrArg Prod.fst (hpair₃.trans hpair₂)
              rw [hsame, show b₁.policy = _ from congrArg Prod.fst hfin.pair, hpolNone]
              cases b.reloadVerdict none err <;> rfl
            refine Books.Swaps.append_left (Books.Swaps.append_left (.inr ⟨[], none, _, rfl, ?_⟩))
            rw [hpairLast]
            show (b₃.policy, b₃.reload.tab) = (b.policy, _)
            rw [hpolicy, ← hunder.tab]
            rfl
  · simp only [if_neg hdirty, append_nil]
    refine ⟨hlaw, .idle hkept ?_ ?_ (by simpa using hdirty) ?_, hswaps⟩
    · rw [hfin.reload]
    · rw [hfin.reload]
    · rw [hfin.reload]
      exact hpid

theorem Primed.start (h : Primed b s) (env : Env) : Reconciles b s (b.startActs env) (b.reloadStart env) := by
  obtain ⟨hlaw, hbegin⟩ := h.begin env
  unfold startActs reloadStart
  cases hres : b.reloadBegin env with
  | mk b' result =>
    rw [hres] at hbegin
    cases result with
    | none =>
      obtain ⟨hsettled, hpair⟩ := hbegin
      simp only [append_nil]
      exact ⟨hlaw, hsettled, .inl hpair⟩
    | some err =>
      obtain ⟨hunder, hpid, -, hpair, -⟩ := hbegin
      have hfinish : Reconciles b' _ (finishActs env 1 b' none err) _ :=
        hunder.finish hpid env (fun hne => absurd rfl hne) err
      refine ⟨hlaw.append hfinish.lawful, ?_, ?_⟩
      · rw [s.after_append]
        exact hfinish.settled
      · refine Books.Swaps.append_left ?_
        rw [← hpair]
        exact hfinish.swaps

theorem Kept.ask (h : Kept b s) (hcaller : ∀ w ∈ caller, w.connId < b.nextId) : s.Lawful (caller.toList.map .asked) ∧
      s.after (caller.toList.map .asked) = { s with asked := s.asked ++ caller.toList } ∧
      ∀ w ∈ s.asked ++ caller.toList, w.connId < b.nextId := by
  cases caller with
  | none =>
    refine ⟨trivial, by simp [Books.after], fun w hw => ?_⟩
    rw [toList_none, append_nil] at hw
    exact h.seen w hw
  | some caller =>
    refine ⟨⟨trivial, trivial⟩, rfl, fun w hw => ?_⟩
    rcases mem_append.mp hw with hw | hw
    · exact h.seen w hw
    · obtain rfl : w = caller := by simpa using hw
      exact hcaller w rfl

section

variable (h : Settled b s)
include h

theorem Settled.request (hdrain : b.draining = false) (env : Env) (hcaller : ∀ w ∈ caller, w.connId < b.nextId) :
    Reconciles b s (b.requestActs env caller) (b.reloadRequest env caller) := by
  obtain ⟨hlaw, hafter, hseen⟩ := h.kept.ask hcaller
  unfold requestActs reloadRequest
  cases h with
  | idle h running run dirty pid =>
    simp only [running, Bool.false_eq_true, if_false]
    have hprimed : Primed { b with reload.run := b.reload.run ++ caller.toList }
        (s.after (caller.toList.map .asked)) := by
      rw [hafter]
      exact
        { kids := h.kids
          balance := fun w => by
            have hb := h.balance w
            simp only [Books.settled, count_append] at hb ⊢
            omega
          __ := h
          seen := hseen
          lost := h.lost
          pid := pid
          next := h.clean dirty
          dirty := dirty }
    have hstart := hprimed.start env
    refine ⟨hlaw.append hstart.lawful, ?_, hstart.swaps.append_left⟩
    rw [s.after_append]
    exact hstart.settled
  | waiting h pid system =>
    simp only [h.running, if_true, append_nil]
    refine ⟨hlaw, .waiting ?_ pid system, .inl rfl⟩
    rw [hafter]
    exact
      { kids := h.kids
        balance := fun w => by
          have hb := h.balance w
          simp only [Books.settled, count_append] at hb ⊢
          omega
        clean := fun hclean => (nomatch hclean)
        pair := h.pair
        seen := hseen
        lost := h.lost
        running := rfl
        covered := h.covered
        tab := h.tab }
  | stopped h pid run draining => exact absurd draining (by simp [hdrain])

theorem Settled.stay : Reconciles b s [] b :=
  ⟨trivial, h, .inl rfl⟩

theorem Settled.endChild {pid : Int} (hpid : b.reload.pid = some pid) (env : Env) (err : Option Bytes) :
    Reconciles b s (.ended pid :: finishActs env 1 { b with reload.pid := none } pol err)
      (reloadFinish env 1 { b with reload.pid := none } pol err) := by
  cases h with
  | idle h running run dirty hnone =>
    rw [hpid] at hnone
    cases hnone
  | stopped h hnone run draining =>
    rw [hpid] at hnone
    cases hnone
  | waiting h hsome system =>
    have hkids : s.kids = [pid] := by
      rw [h.kids, hpid]
      rfl
    have hunder : Underway { b with reload.pid := none } (s.note (.ended pid)) :=
      { kids := by
          show s.kids.erase pid = []
          rw [hkids]
          simp
        __ := h
        tab := h.tab }
    have hfinish : Reconciles _ _ (finishActs env 1 { b with reload.pid := none } pol err) _ :=
      hunder.finish rfl env (fun _ => system) err
    refine ⟨⟨?_, hfinish.lawful⟩, hfinish.settled, ?_⟩
    · show pid ∈ s.kids
      rw [hkids]
      exact mem_singleton_self pid
    · show s.Swaps ([.ended pid] ++ _) _ _
      refine Books.Swaps.append_left ?_
      exact hfinish.swaps

theorem Settled.reaped (env : Env) (outcome : Except Bytes Policy) :
    Reconciles b s (b.reapedActs env outcome) (b.reloadReaped env outcome) := by
  unfold reapedActs reloadReaped
  cases hpid : b.reload.pid with
  | none => exact h.stay
  | some pid =>
    cases outcome with
    | ok pol => exact h.endChild hpid env none
    | error text => exact h.endChild hpid env (some text)

theorem Settled.timeout (env : Env) : Reconciles b s (b.timeoutActs env) (b.reloadCheckTimeout env) := by
  unfold timeoutActs reloadCheckTimeout
  cases hpid : b.reload.pid with
  | none => exact h.stay
  | some pid =>
    dsimp only
    split
    · exact h.endChild hpid env _
    · exact h.stay

theorem Settled.abort (hdrain : b.draining = true) (env : Env) : Reconciles b s b.abortActs (b.reloadAbort env) := by
  have hkept := h.kept
  have hended : s.Lawful (b.reload.pid.toList.map .ended) ∧
      s.after (b.reload.pid.toList.map .ended) = { s with kids := [] } := by
    have hkids := hkept.kids
    cases hpid : b.reload.pid with
    | none =>
      rw [hpid, toList_none] at hkids
      refine ⟨trivial, ?_⟩
      show s = { s with kids := [] }
      rw [← hkids]
    | some pid =>
      rw [hpid, toList_some] at hkids
      refine ⟨⟨?_, trivial⟩, ?_⟩
      · show pid ∈ s.kids
        rw [hkids]
        exact mem_singleton_self pid
      · show { s with kids := s.kids.erase pid } = _
        rw [hkids]
        simp
  obtain ⟨hlawEnd, hafterEnd⟩ := hended
  obtain ⟨hlaw, hafter⟩ := Books.lawful_answers (s := { s with kids := [] }) (fun id => decide (id ∈ b.ids)) .restarting
    (fun w => ⟨fun _ => rfl, fun s' hasked _ hlt => by
      show s'.settled w < s'.asked.count w
      rw [hasked]
      exact hlt⟩) (b.reload.run ++ b.reload.next)
    (fun w => by
      have hb := hkept.balance w
      rw [count_append]
      exact le_of_eq (by
        show s.settled w + _ = s.asked.count w
        omega))
    (fun w => le_refl _)
  have hacts : b.abortActs = b.reload.pid.toList.map .ended ++
      (b.reload.run ++ b.reload.next).map fun w => if decide (w.connId ∈ b.ids) = true
        then .restarting w else .lost w := by
    simp [abortActs]
  -- the two rounds of answers
  let b₁ : Broker := { b with reload.pid := none }
  let b₂ := b₁.reloadReply env b₁.reload.run (some (cstr "Message bus is restarting"))
  let b₃ := b₂.reloadReply env b₂.reload.next (some (cstr "Message bus is restarting"))
  have htalk : Broker.Talk b₁ b₃ := (talk_reloadReply env b₁ _ _).trans (talk_reloadReply env b₂ _ _)
  have habort : b.reloadAbort env = { b₃ with reload.run := [], reload.next := [] } := rfl
  have haside : Broker.Aside Broker.Anyone b₁ _ := htalk.aside
  have hpair : ((b.reloadAbort env).policy, (b.reloadAbort env).svctab) = (b.policy, b.svctab) := by
    rw [habort]
    exact Prod.ext haside.policy haside.svctab
  have hreload : (b.reloadAbort env).reload = { b.reload with pid := none, run := [], next := [] } := by
    rw [habort]
    rw [haside.reload]
  have hids : (b.reloadAbort env).ids = b.ids := by
    rw [habort]
    exact htalk.ids
  have hnextId : (b.reloadAbort env).nextId = b.nextId := by
    rw [habort]
    exact htalk.steady.nextId
  have hdraining : (b.reloadAbort env).draining = true := by
    rw [habort]
    exact haside.draining.trans hdrain
  rw [hacts]
  refine ⟨hlawEnd.append (by rwa [hafterEnd]), ?_, .inl hpair⟩
  rw [s.after_append, hafterEnd, hafter]
  refine .stopped ?_ (by rw [hreload]) (by rw [hreload]; exact ⟨rfl, rfl⟩) hdraining
  constructor
  · rw [hreload]
    rfl
  · intro w
    have hb := hkept.balance w
    have hf := count_filter_not (b.reload.run ++ b.reload.next) (fun w => decide (w.connId ∈ b.ids)) w
    rw [hreload]
    simp only [Books.settled, count_append, count_nil] at hb hf ⊢
    omega
  · intro _
    rw [hreload]
  · rw [hpair]
    exact hkept.pair
  · rw [hnextId]
    exact hkept.seen
  · intro w hw
    rw [hids]
    rcases mem_append.mp hw with hw | hw
    · exact hkept.lost w hw
    · simpa using (mem_filter.mp hw).2

end

/-! ## The whole broker -/

theorem Bus.ids_apply {s : Bus} (hl : s.Valid l) :
    s.nextId ≤ (s.apply l).nextId ∧ ∀ id ∈ (s.apply l).ids, id ∈ s.ids ∨ s.nextId ≤ id := by
  have hmod (s : Bus) (id x : ConnId) {f : Conn → Conn} (hx : x ∈ (s.mod id f).ids) (hf : ∀ c, (f c).id = c.id) :
      x ∈ s.ids := s.ids_mod id hf ▸ hx
  have hdrop (id x : ConnId) (hx : x ∈ (s.dropNames id).ids) : x ∈ s.ids :=
    hmod { s with names := (s.names.disconnect id).1 } id x hx fun _ => rfl
  cases l with
  | stay => exact ⟨le_refl _, fun _ h => .inl h⟩
  | turnAway => exact ⟨Nat.le_succ _, fun _ h => .inl h⟩
  | accept c =>
    refine ⟨Nat.le_succ _, fun id hid => ?_⟩
    simp only [apply, ids, map_append, mem_append, map_cons, map_nil, mem_singleton] at hid
    rcases hid with hid | rfl
    · exact .inl hid
    · exact .inr (le_of_eq hl.1.symm)
  | shake id k => exact ⟨le_refl _, fun x hx => .inl (hmod s id x hx fun _ => rfl)⟩
  | hello id =>
    simp only [apply, hello]
    split
    · exact ⟨le_refl _, fun x hx => .inl (hmod s id x hx fun _ => rfl)⟩
    · exact ⟨le_refl _, fun x hx => .inl (hmod { s with names := (s.names.allocUnique id).1 } id x hx fun _ => rfl)⟩
  | setRules id rules => exact ⟨le_refl _, fun x hx => .inl (hmod s id x hx fun _ => rfl)⟩
  | request id name flags => exact ⟨le_refl _, fun _ h => .inl h⟩
  | release id name => exact ⟨le_refl _, fun _ h => .inl h⟩
  | monitor id rules =>
    exact ⟨le_refl _, fun x hx => .inl (hdrop id x (hmod (s.dropNames id) id x hx fun _ => rfl))⟩
  | leave id =>
    refine ⟨le_refl _, fun x hx => .inl (hdrop id x ?_)⟩
    obtain ⟨c, hc, rfl⟩ := mem_map.mp hx
    refine mem_map_of_mem ?_
    change c ∈ swapOut Conn.id id (s.dropNames id).faces at hc
    unfold swapOut at hc
    split at hc
    · exact hc
    · exact mem_of_mem_swapRemove hc

namespace Broker

structure Onward (b b' : Broker) : Prop extends Aside Anyone b b' where
  nextId : b.nextId ≤ b'.nextId
  ids : ∀ id ∈ b'.ids, id ∈ b.ids ∨ b.nextId ≤ id

theorem Aside.onward (h : Aside Anyone b b') (hs : b'.bus = b.bus) : Onward b b' where
  toAside := h
  nextId := le_of_eq (congrArg Bus.nextId hs).symm
  ids := fun id hid => .inl (by rwa [← ids_bus, ← hs, ids_bus])

theorem Talk.onward (h : Talk b b') : Onward b b' := h.aside.onward h.steady.bus

theorem onward_of_moves (h : Aside Anyone b b') (hl : Moves b b' l) : Onward b b' := by
  obtain ⟨hnext, hids⟩ := ids_apply hl.2
  refine ⟨h, ?_, fun id hid => ?_⟩
  · rw [← hl.1] at hnext
    exact hnext
  · rw [← hl.1, ids_bus, ids_bus] at hids
    exact hids id hid

end Broker

theorem Settled.onward (h : Settled b s) (ho : Broker.Onward b b') : Settled b' s := by
  have hkept : Kept b' s := by
    have hk := h.kept
    constructor
    · rw [ho.reload]
      exact hk.kids
    · rw [ho.reload]
      exact hk.balance
    · rw [ho.reload]
      exact hk.clean
    · rw [ho.policy, ho.svctab]
      exact hk.pair
    · exact fun w hw => lt_of_lt_of_le (hk.seen w hw) ho.nextId
    · intro w hw hid
      -- who is lost has asked, so the id is an old one
      have hasked : w ∈ s.asked := by
        have hb := hk.balance w
        have hpos := count_pos_iff.mpr hw
        unfold Books.settled at hb
        exact count_pos_iff.mp (by omega)
      rcases ho.ids _ hid with hold | hnew
      · exact hk.lost w hw hold
      · exact absurd (hk.seen w hasked) (Nat.not_lt.mpr hnew)
  cases h with
  | idle _ running run dirty pid =>
    refine .idle hkept ?_ ?_ ?_ ?_
    · rw [ho.reload]
      exact running
    · rw [ho.reload]
      exact run
    · rw [ho.reload]
      exact dirty
    · rw [ho.reload]
      exact pid
  | waiting h pid system =>
    refine .waiting ⟨hkept, ?_, ?_, ?_⟩ ?_ ?_
    · rw [ho.reload]
      exact h.running
    · rw [ho.reload]
      exact h.covered
    · rw [ho.reload]
      exact h.tab
    · rw [ho.reload]
      exact pid
    · rw [ho.systemBus, ho.dissolves]
      exact system
  | stopped _ pid run draining =>
    refine .stopped hkept ?_ ?_ ?_
    · rw [ho.reload]
      exact pid
    · rw [ho.reload]
      exact run
    · rw [ho.draining]
      exact draining

namespace Broker

/-- The `ReloadConfig` call that a connection's buffer starts with, if `handle_message` takes it to
`reload_request`: the state it does so in, and the caller. -/
def reloadCall (b : Broker) (env : Env) (id : ConnId) : Option (Broker × Waiter) :=
  match b.nextMsg id with
  | none => none
  | some (c, w) =>
    let raw := c.inBuf.take w.totalLen
    let n := sdbusWireNFds w
    if c.authed = true ∧ ¬ (n < 0 ∨ n > c.pendingFds.length) ∧ c.isMonitor = false ∧ toDriver w = true ∧
        w.member = some (cstr "ReloadConfig") ∧ (env.lib.demarshal raw).isSome = true ∧ privileged env c = true ∧
        b.draining = false then
      some (b.monitorInbound c w raw n.toNat, { connId := c.id, serial := w.serial })
    else none

/-- The acts of a step, listed next to the functions of the model. -/
def stepActs (b : Broker) (i : Input) : List Act :=
  match i.event with
  | .deliver id =>
    match b.reloadCall i.env id with
    | none => []
    | some (b, w) => b.requestActs i.env (some w)
  | .reload => if b.draining then [] else b.requestActs i.env none
  | .dissolved outcome => b.reapedActs i.env outcome
  | .reloadTimeout => b.timeoutActs i.env
  | .abort => if b.draining then b.abortActs else []
  | _ => []

variable {new : ConnId → Prop}

/-- The message may be held, or leave a call waiting, for a service to come up. -/
def HoldsCall (c : Conn) (w : WireMsg) : Prop :=
  toDriver w = true ∧ w.member = some (cstr "StartServiceByName") ∨ ¬ toDriver w = true ∧ c.unique.isSome = true

theorem aside_handleDriver {c : Conn} {w : WireMsg} {raw : Bytes} (nfds : Nat)
    (hnew : w.member = some (cstr "StartServiceByName") → new c.id)
    (h : w.member = some (cstr "ReloadConfig") → (env.lib.demarshal raw).isSome = true → privileged env c = true →
      b.draining = true) : Aside new b (b.handleDriver env c w raw nfds) := by
  unfold handleDriver
  split
  case isTrue hstart =>
    exact (haul_startServiceByName env b (hnew hstart) w raw).aside.trans (haul_finishMessage ..).aside
  · split
    · have hanswer : Aside new b _ := (talk_monitorAnswer env b c w raw).aside
      unfold becomeMonitor
      split
      case h_1 b' hb' =>
        rw [hb'] at hanswer
        exact hanswer.trans (haul_finishMessage b' ..).aside
      case h_2 b' rules hb' =>
        rw [hb'] at hanswer
        refine (hanswer.trans (haul_finishMessage b' c.id nfds false).aside).trans ?_
        unfold turnMonitor
        have hnames : Aside new _ _ := (talk_ownNameLost env (b'.finishMessage c.id nfds false) c.id).aside.trans
          (plain_dropNames env _ c.id).aside
        have hflag : Aside new _ _ := aside_modConn
          ((ownNameLost env (b'.finishMessage c.id nfds false) c.id).dropNames env c.id) c.id
          (fun c => { c with isMonitor := true, monRules := some rules, rules := none })
        exact (hnames.trans hflag).trans (.of_same rfl)
    · split
      · refine Aside.trans ?_ (haul_finishMessage ..).aside
        unfold configCall
        cases hcall : env.lib.demarshal raw with
        | none => exact (talk_synthErrorWire env b ..).aside
        | some call =>
          dsimp only
          split
          case isTrue hmember =>
            unfold reloadConfig
            split
            · exact (talk_replyError env b ..).aside
            case isFalse hpriv =>
              have hdrain := h hmember (by rw [hcall]; rfl) (by simpa using hpriv)
              rw [if_pos hdrain]
              exact (talk_synthErrorWire env b ..).aside
          · split
            · exact (talk_replyError env b ..).aside
            · split
              · exact (talk_replyError env b ..).aside
              · unfold updateEnvironment
                have henv : Aside new b { b with actenv := (newEnvironment b.actenv call).1 } := .of_same rfl
                dsimp only
                split
                · exact henv.trans (talk_reply env ..).aside
                · exact henv.trans (talk_replyError env ..).aside
      · exact (plain_driverCall env b c w raw).aside.trans (haul_finishMessage ..).aside

theorem aside_deliver {id : ConnId} (hnew : ∀ m ∈ b.nextMsg id, HoldsCall m.1 m.2 → new m.1.id)
    (h : b.reloadCall env id = none) : Aside new b (b.deliver env id) := by
  unfold deliver
  cases hc : b.conn? id with
  | none => exact Aside.refl b
  | some c =>
    dsimp only
    split
    · exact Aside.refl b
    case isFalse hauthed =>
      cases hw : sdbusWireParse c.inBuf with
      | incomplete => exact Aside.refl b
      | corrupt => exact (haul_dropPending b id).aside.trans (aside_modConn _ id _)
      | complete w =>
        have hnext : b.nextMsg id = some (c, w) := by simp [nextMsg, hc, hw]
        have hheld := hnew (c, w) hnext
        refine Aside.trans ?_ (aside_modConn _ id _)
        unfold handleMessage
        rw [hc]
        dsimp only
        split
        · exact ((talk_synthErrorWire env b ..).aside.trans (haul_dropPending _ id).aside).trans
            (talk_drainScratch _ id).aside
        case isFalse hcount =>
          split
          · exact (haul_consumeMsgFds b id _ _).aside
          case isFalse hmon =>
            have hin : Aside new b _ := (talk_monitorInbound b c w (c.inBuf.take w.totalLen)
              (sdbusWireNFds w).toNat).aside
            refine hin.trans ?_
            split
            case isTrue hdriver =>
              refine aside_handleDriver _ (fun hstart => hheld (.inl ⟨hdriver, hstart⟩)) fun hmember hcall hpriv => ?_
              rw [hin.draining]
              by_contra hdrain
              simp only [reloadCall, hnext] at h
              rw [if_pos ⟨by simpa using hauthed, hcount, by simpa using hmon, hdriver, hmember, hcall, hpriv,
                by simpa using hdrain⟩] at h
              cases h
            case isFalse hrouted =>
              split
              · exact (haul_refuse env ..).aside
              case h_2 u hu =>
                split
                · exact (haul_refuse env ..).aside
                · refine (haul_handleRouted env _ _ (hheld (.inr ⟨hrouted, ?_⟩)) _ _ _).aside
                  rw [hu]
                  rfl

end Broker

/-! ## What the acts are in the broker -/

def Act.silent : Act → Bool
  | .replied _ _ | .restarting _ | .lost _ => false
  | _ => true

def restartText : Bytes := cstr "Message bus is restarting"

/-- From `b` to `b'` the broker sends one message for each answer in `as`, to the caller's
connection and in this order, and else changes only the reload's own part. -/
inductive Performs (env : Env) : Broker → List Act → Broker → Prop
  | done (b : Broker) : Performs env b [] b
  | own {b b' : Broker} {as : List Act} (r : Reload) (p : Policy) (t : List SvcEnt)
      (h : Performs env { b with reload := r, policy := p, svctab := t } as b') : Performs env b as b'
  | silent {b b' : Broker} {a : Act} {as : List Act} (ha : a.silent = true) (h : Performs env b as b') :
      Performs env b (a :: as) b'
  | replied {b b' : Broker} {w : Waiter} {err : Option Bytes} {as : List Act} (hw : w.connId ∈ b.ids)
      (h : Performs env (b.reloadReplyOne env err w) as b') : Performs env b (.replied w err :: as) b'
  | restarting {b b' : Broker} {w : Waiter} {as : List Act} (hw : w.connId ∈ b.ids)
      (h : Performs env (b.reloadReplyOne env (some restartText) w) as b') : Performs env b (.restarting w :: as) b'
  | lost {b b' : Broker} {w : Waiter} {as : List Act} (hw : w.connId ∉ b.ids) (h : Performs env b as b') :
      Performs env b (.lost w :: as) b'

namespace Performs

theorem append {b'' : Broker} (h : Performs env b as b')
    (h' : Performs env b' as' b'') : Performs env b (as ++ as') b'' := by
  induction h with
  | done b => exact h'
  | own r p t _ ih => exact .own r p t (ih h')
  | silent ha _ ih => exact .silent ha (ih h')
  | replied hw _ ih => exact .replied hw (ih h')
  | restarting hw _ ih => exact .restarting hw (ih h')
  | lost hw _ ih => exact .lost hw (ih h')

theorem acts (h : Performs env b as b') : b'.acts = b.acts := by
  have hreply (err : Option Bytes) (b : Broker) (w : Waiter) : (b.reloadReplyOne env err w).acts = b.acts :=
    (talk_reloadReply env b [w] err).steady.acts
  induction h with
  | done b => rfl
  | own r p t _ ih => exact ih
  | silent ha _ ih => exact ih
  | replied hw _ ih => exact ih.trans (hreply ..)
  | restarting hw _ ih => exact ih.trans (hreply ..)
  | lost hw _ ih => exact ih

theorem change (b : Broker) (r : Reload) (p : Policy) (t : List SvcEnt) :
    Performs env b [] { b with reload := r, policy := p, svctab := t } :=
  .own r p t (.done _)

theorem replies {err : Option Bytes} {ids : List ConnId} {reply : Waiter → Act}
    (hreply : ∀ {b b' : Broker} {w : Waiter} {as : List Act}, w.connId ∈ b.ids →
      Performs env (b.reloadReplyOne env err w) as b' → Performs env b (reply w :: as) b')
    (ws : List Waiter) (hids : b.ids = ids) :
    Performs env b (ws.map fun w => if w.connId ∈ ids then reply w else .lost w) (b.reloadReply env ws err) := by
  induction ws generalizing b with
  | nil => exact .done b
  | cons w ws ih =>
    have hone : (b.reloadReplyOne env err w).ids = ids :=
      (talk_reloadReply env b [w] err).ids.trans hids
    by_cases hw : w.connId ∈ ids
    · simp only [map_cons, if_pos hw]
      exact hreply (hids ▸ hw) (ih hone)
    · have hnone : b.reloadReplyOne env err w = b := by
        unfold reloadReplyOne
        rw [show b.conn? w.connId = none from lookup_eq_none.mpr (show w.connId ∉ b.ids from hids ▸ hw)]
      simp only [map_cons, if_neg hw]
      refine .lost (hids ▸ hw) ?_
      show Performs env b _ ((b.reloadReplyOne env err w).reloadReply env ws err)
      rw [hnone]
      exact ih hids

theorem answers {b₀ : Broker} (hids : b.ids = b₀.ids) (ws : List Waiter) (err : Option Bytes) :
    Performs env b (ws.map (b₀.answer err)) (b.reloadReply env ws err) :=
  replies (fun hw h => .replied hw h) ws hids

theorem settle (env : Env) (b : Broker) (pol : Option Policy) (err : Option Bytes) :
    Performs env b (b.settleActs pol err) (b.reloadSettle env pol err) := by
  unfold settleActs reloadSettle
  generalize b.reloadVerdict pol err = verdict
  refine .silent rfl ?_
  rw [← append_nil (b.reload.run.map _)]
  refine .append ?_ (change ..)
  cases verdict with
  | some text =>
    exact .own { b.reload with tab := [] } b.policy b.svctab (answers rfl b.reload.run (some text))
  | none =>
    exact .own { b.reload with tab := [] } (pol.getD b.policy) b.reload.tab (answers rfl b.reload.run none)

theorem begin (env : Env) (b : Broker) : Performs env b (b.beginActs env) (b.reloadBegin env).1 := by
  unfold beginActs
  refine .silent rfl ?_
  by_cases hone : b.systemBus = false ∨ b.dissolves = false
  · simp only [reloadBegin, if_pos hone]
    exact change b ..
  · by_cases htmp : env.policyTmp = false
    · simp only [reloadBegin, if_neg hone, if_pos htmp]
      exact change b ..
    · cases hchild : env.dissolver with
      | none =>
        simp only [reloadBegin, if_neg hone, if_neg htmp, hchild]
        exact change b ..
      | some pid =>
        simp only [reloadBegin, if_neg hone, if_neg htmp, hchild]
        exact .silent rfl (change b ..)

theorem finish (env : Env) (rounds : Nat) (b : Broker) (pol : Option Policy) (err : Option Bytes) :
    Performs env b (finishActs env rounds b pol err) (reloadFinish env rounds b pol err) := by
  induction rounds generalizing b pol err with
  | zero => exact settle env b pol err
  | succ rounds ih =>
    unfold finishActs reloadFinish
    dsimp only
    refine (settle env b pol err).append ?_
    generalize b.reloadSettle env pol err = b
    split
    · generalize hb' : ({ b with reload.dirty := false, reload.run := b.reload.next, reload.next := [] } : Broker) = b'
      have hown : Performs env b [] b' := hb' ▸ change b ..
      refine hown.append ((begin env b').append ?_)
      rcases b'.reloadBegin env with ⟨b'', none | err⟩
      · exact .done b''
      · exact ih b'' none err
    · exact .done b

theorem start (env : Env) (b : Broker) : Performs env b (b.startActs env) (b.reloadStart env) := by
  unfold startActs reloadStart
  refine (begin env b).append ?_
  rcases b.reloadBegin env with ⟨b', none | err⟩
  · exact .done b'
  · exact finish env 1 b' none err

theorem request (env : Env) (b : Broker) (caller : Option Waiter) :
    Performs env b (b.requestActs env caller) (b.reloadRequest env caller) := by
  have hasked : Performs env b (caller.toList.map .asked) b := by
    cases caller with
    | none => exact .done b
    | some w => exact .silent rfl (.done b)
  unfold requestActs reloadRequest
  refine hasked.append ?_
  split
  · exact change b ..
  · exact .own _ b.policy b.svctab (start env _)

theorem reaped (env : Env) (b : Broker) (outcome : Except Bytes Policy) :
    Performs env b (b.reapedActs env outcome) (b.reloadReaped env outcome) := by
  unfold reapedActs reloadReaped
  cases b.reload.pid with
  | none => exact .done b
  | some pid =>
    refine .silent rfl (.own { b.reload with pid := none } b.policy b.svctab ?_)
    cases outcome with
    | ok pol => exact finish env 1 ..
    | error text => exact finish env 1 ..

theorem timeout (env : Env) (b : Broker) : Performs env b (b.timeoutActs env) (b.reloadCheckTimeout env) := by
  unfold timeoutActs reloadCheckTimeout
  cases b.reload.pid with
  | none => exact .done b
  | some pid =>
    dsimp only
    split
    · exact .silent rfl (.own { b.reload with pid := none } b.policy b.svctab (finish env 1 ..))
    · exact .done b

theorem abort (env : Env) (b : Broker) : Performs env b b.abortActs (b.reloadAbort env) := by
  have hended : Performs env b (b.reload.pid.toList.map .ended) b := by
    cases b.reload.pid with
    | none => exact .done b
    | some pid => exact .silent rfl (.done b)
  unfold abortActs reloadAbort
  dsimp only
  refine hended.append (.own { b.reload with pid := none } b.policy b.svctab ?_)
  generalize hb₁ : ({ b with reload.pid := none } : Broker) = b₁
  have hids : b₁.ids = b.ids := by rw [← hb₁]; rfl
  have hnext₁ : b₁.reload.next = b.reload.next := by rw [← hb₁]
  have htalk := talk_reloadReply env b₁ b.reload.run (some restartText)
  have hfirst : Performs env b₁ _ (b₁.reloadReply env b.reload.run (some restartText)) :=
    replies (fun hw h => .restarting hw h) b.reload.run hids
  change Performs env b₁ _ (let b₂ := b₁.reloadReply env b.reload.run (some restartText)
    let b₃ := b₂.reloadReply env b₂.reload.next (some restartText)
    { b₃ with reload.run := [], reload.next := [] })
  generalize b₁.reloadReply env b.reload.run (some restartText) = b₂ at *
  have hnext : b₂.reload.next = b.reload.next := by rw [htalk.steady.reload, hnext₁]
  have hsecond : Performs env b₂ _ (b₂.reloadReply env b₂.reload.next (some restartText)) :=
    replies (fun hw h => .restarting hw h) b₂.reload.next (htalk.ids.trans hids)
  have hall := hfirst.append hsecond
  rw [← map_append, hnext] at hall
  rw [← append_nil (List.map _ _)]
  dsimp only
  rw [hnext]
  exact hall.append (change ..)

end Performs

/-! ## Runs -/

namespace Broker

theorem Onward.refl (b : Broker) : Onward b b := (Aside.refl b).onward rfl

theorem deliver_reloadCall {id : ConnId} (h : b.reloadCall env id = some (b₁, w)) :
    Talk b b₁ ∧ w.connId ∈ b.ids ∧ b₁.draining = false ∧ (b.deliver env id).bus = (b₁.reloadRequest env (some w)).bus ∧
      ∀ new, Aside new (b₁.reloadRequest env (some w)) (b.deliver env id) := by
  unfold reloadCall at h
  cases hnext : b.nextMsg id with
  | none =>
    rw [hnext] at h
    cases h
  | some next =>
    obtain ⟨c, m⟩ := next
    rw [hnext] at h
    dsimp only at h
    split at h
    case isTrue hcond =>
      obtain ⟨hauthed, hcount, hmon, hdriver, hmember, hcall, hpriv, hdrain⟩ := hcond
      obtain ⟨rfl, rfl⟩ : _ = b₁ ∧ _ = w := by simpa using h
      have htalk := talk_monitorInbound b c m (c.inBuf.take m.totalLen) (sdbusWireNFds m).toNat
      have hc : b.conn? id = some c ∧ sdbusWireParse c.inBuf = .complete m := by
        unfold nextMsg at hnext
        cases hc : b.conn? id with
        | none =>
          rw [hc] at hnext
          cases hnext
        | some d =>
          rw [hc] at hnext
          dsimp only at hnext
          split at hnext
          case h_1 m' hm =>
            obtain ⟨rfl, rfl⟩ : d = c ∧ m' = m := by simpa using hnext
            exact ⟨rfl, hm⟩
          · cases hnext
      have hid : c.id = id := key_of_lookup hc.1
      have hdrain₁ := htalk.steady.draining.trans hdrain
      refine ⟨htalk, mem_map_of_mem (mem_of_lookup hc.1), hdrain₁, ?_⟩
      · generalize hb₁ : b.monitorInbound c m (c.inBuf.take m.totalLen) (sdbusWireNFds m).toNat = b₁ at *
        have hdeliver : b.deliver env id = ((b₁.reloadRequest env (some ⟨c.id, m.serial⟩)).finishMessage c.id
            (sdbusWireNFds m).toNat false).modConn id (fun c => c.inConsume m.totalLen) := by
          have hne : ¬ some (cstr "ReloadConfig") = some (cstr "StartServiceByName") ∧
              ¬ some (cstr "ReloadConfig") = some (cstr "BecomeMonitor") := by decide
          obtain ⟨call, hcall⟩ := isSome_iff_exists.mp hcall
          simp only [deliver, hc.1, hauthed, Bool.true_eq_false, if_false, hc.2, handleMessage, if_neg hcount, hmon,
            Bool.false_eq_true, hb₁, hdriver, if_true, handleDriver, if_neg hne.1, if_neg hne.2, hmember, true_or,
            configCall, hcall, reloadConfig, hpriv, hdrain₁]
        rw [hdeliver]
        generalize b₁.reloadRequest env (some ⟨c.id, m.serial⟩) = b₂
        exact ⟨(steady_modConn _ id (f := fun c => c.inConsume m.totalLen) fun _ => rfl).bus.trans
          (haul_finishMessage b₂ ..).bus, fun new => (haul_finishMessage b₂ ..).aside.trans (aside_modConn _ id _)⟩
    · cases h

end Broker

def Books.start (k : Config) : Books where
  asked := []
  covered := []
  replies := []
  lost := []
  kids := []
  tab := []
  pair := (k.policy, k.svctab)

namespace Broker

structure Beside (b b' : Broker) : Prop where
  reload : b'.reload = b.reload
  policy : b'.policy = b.policy
  svctab : b'.svctab = b.svctab

theorem Beside.refl (b : Broker) : Beside b b := ⟨rfl, rfl, rfl⟩

theorem Aside.beside (h : Aside Anyone b b') : Beside b b' := { h with }

end Broker

/-- The broker does these acts in a step, in some part of it, and accounts for them. -/
structure Reckoned (b : Broker) (s : Books) (env : Env) (as : List Act) (b' : Broker) : Prop where
  performs : ∃ b₁ b₂, Broker.Beside b b₁ ∧ Performs env b₁ as b₂ ∧ Broker.Beside b₂ b'
  reconciles : Reconciles b s as b'

theorem Reconciles.reckoned {b₂ : Broker} (ho : Broker.Onward b b₁)
    (h : Reconciles b₁ s as b₂) (hp : Performs env b₁ as b₂) (ho' : Broker.Onward b₂ b') : Reckoned b s env as b' where
  performs := ⟨b₁, b₂, ho.toAside.beside, hp, ho'.toAside.beside⟩
  reconciles := by
    refine ⟨h.lawful, h.settled.onward ho', ?_⟩
    have hswaps := h.swaps
    rw [ho.policy, ho.svctab, ← ho'.policy, ← ho'.svctab] at hswaps
    exact hswaps

theorem Settled.aside (h : Settled b s) (ho : Broker.Onward b b') : Reckoned b s env [] b' :=
  h.stay.reckoned (.refl b) (.done b) ho

theorem Settled.step {b : Broker} {s : Books} (h : Settled b s) (hlive : b.bus.Live) (i : Input) :
    Reckoned b s i.env (b.stepActs i) (step b i) := by
  obtain ⟨l, hmoves, -⟩ := step_moves hlive.nodup i
  have honward (ha : Broker.Aside Broker.Anyone b (Dbus.step b i)) : Broker.Onward b (Dbus.step b i) :=
    onward_of_moves ha hmoves
  have hquiet (hacts : b.stepActs i = []) (ha : Broker.Aside Broker.Anyone b (Dbus.step b i)) :
      Reckoned b s i.env (b.stepActs i) (Dbus.step b i) := by
    rw [hacts]
    exact h.aside (honward ha)
  have hself := Broker.Onward.refl b
  cases hev : i.event with
  | accept creds =>
    refine hquiet (by simp [stepActs, hev]) ?_
    simp only [Dbus.step, hev]
    split
    · exact .refl b
    · exact aside_addConn b creds
  | receive id data nfds =>
    refine hquiet (by simp [stepActs, hev]) ?_
    simp only [Dbus.step, hev]
    split
    · exact .refl b
    · exact aside_receive i.env b id data nfds
  | deliver id =>
    cases hcall : b.reloadCall i.env id with
    | none =>
      refine hquiet (by simp [stepActs, hev, hcall]) ?_
      simp only [Dbus.step, hev]
      exact aside_deliver (fun _ _ _ => trivial) hcall
    | some call =>
      obtain ⟨b₁, w⟩ := call
      obtain ⟨htalk, hid, hdrain, hbus, hrest⟩ := deliver_reloadCall hcall
      have hcaller : ∀ x ∈ some w, x.connId < b₁.nextId := by
        rintro x ⟨⟩
        have hfresh := hlive.fresh w.connId (by rwa [ids_bus])
        exact lt_of_lt_of_le hfresh htalk.onward.nextId
      have hrequest := (h.onward htalk.onward).request hdrain i.env hcaller
      simp only [stepActs, Dbus.step, hev, hcall]
      exact hrequest.reckoned htalk.onward (.request i.env b₁ (some w)) ((hrest Broker.Anyone).onward hbus)
  | writable id answers =>
    refine hquiet (by simp [stepActs, hev]) ?_
    simp only [Dbus.step, hev]
    exact aside_writable i.env b id answers
  | hangup id =>
    refine hquiet (by simp [stepActs, hev]) ?_
    simp only [Dbus.step, hev]
    exact aside_removeConn i.env b id
  | expireReplies =>
    refine hquiet (by simp [stepActs, hev]) ?_
    simp only [Dbus.step, hev]
    exact (quiet_expireReplies i.env b).plain.aside
  | expireAct =>
    refine hquiet (by simp [stepActs, hev]) ?_
    simp only [Dbus.step, hev]
    exact (quiet_expireAct i.env b).plain.aside
  | childExit pid =>
    refine hquiet (by simp [stepActs, hev]) ?_
    simp only [Dbus.step, hev]
    exact (quiet_childExit i.env b pid).plain.aside
  | sweep =>
    refine hquiet (by simp [stepActs, hev]) ?_
    simp only [Dbus.step, hev, sweep]
    split
    · exact .refl b
    · exact aside_removeConn i.env b _
  | reportFlush =>
    refine hquiet (by simp [stepActs, hev]) ?_
    simp only [Dbus.step, hev]
    exact (talk_reportFlush i.env b).aside
  | reload =>
    simp only [stepActs, Dbus.step, hev]
    split
    · exact h.aside hself
    case isFalse hdrain =>
      exact (h.request (by simpa using hdrain) i.env (fun _ hw => absurd hw (by simp))).reckoned hself
        (.request i.env b none) (.refl _)
  | dissolved outcome =>
    simp only [stepActs, Dbus.step, hev]
    exact (h.reaped i.env outcome).reckoned hself (.reaped i.env b outcome) (.refl _)
  | reloadTimeout =>
    simp only [stepActs, Dbus.step, hev]
    exact (h.timeout i.env).reckoned hself (.timeout i.env b) (.refl _)
  | terminate =>
    simp only [stepActs, Dbus.step, hev]
    refine ⟨⟨b, b, .refl b, .done b, ⟨rfl, rfl, rfl⟩⟩, trivial, ?_, .inl rfl⟩
    cases h with
    | idle h running run dirty pid => exact .idle { h with } running run dirty pid
    | waiting h pid system =>
      exact .waiting ⟨{ h with }, h.running, h.covered, h.tab⟩ pid system
    | stopped h pid run draining => exact .stopped { h with } pid run rfl
  | abort =>
    simp only [stepActs, Dbus.step, hev]
    split
    case isTrue hdrain =>
      exact (h.abort hdrain i.env).reckoned hself (.abort i.env b)
        ((quiet_failActs i.env _).plain.aside.onward (quiet_failActs i.env _).calm.bus)
    · exact h.aside hself

end SchemaInit.Dbus
