/-
# `SchemaInit.Engine.Shm` — the status table in shared memory (`shm_update`)

PID 1 exports its services and groups in a shared memory segment, and anyone may
read it: `shm_is_active` of the `systemctl` shim and `snapshot` of `schema-board`
read the sequence number, copy the segment, and take the copy if the sequence
number is the same afterwards.  Both are the same loop and one reader here; that
it gives up after 1000 attempts only makes its runs fewer.

`shm_update` writes the table and then puts the sequence number up.  The segment
is a memory of words; a name is taken byte by byte.  With the writes of an update
as a list this is `SchemaInit.Lib.SeqLock`.
-/
import SchemaInit.Engine.Probe
import SchemaInit.Lib.SeqLock

namespace SchemaInit.Engine

open List SeqLock
open List (range replicate)

/-! ## The segment -/

inductive SvcWord where
  | name (k : Nat)
  | state
  | weight
  | childPid
  | restartCount
  | cardPlayed
  | cardCount
  | limp
  deriving DecidableEq

inductive GroupWord where
  | name (k : Nat)
  | state
  | memberCount
  deriving DecidableEq

inductive ShmWord where
  | magic
  | seq
  | count
  | svc (i : Nat) (f : SvcWord)
  | groupCount
  | group (i : Nat) (f : GroupWord)
  | systemState
  deriving DecidableEq

def shmMax : Nat := 128
def shmMaxGroups : Nat := 16
def shmNameLen : Nat := 64

def svcWords : List SvcWord :=
  (range shmNameLen).map SvcWord.name ++
    [.state, .weight, .childPid, .restartCount, .cardPlayed, .cardCount, .limp]

def groupWords : List GroupWord :=
  (range shmNameLen).map GroupWord.name ++ [.state, .memberCount]

def shmWords : List ShmWord :=
  [.magic, .seq, .count] ++ (range shmMax).flatMap (fun i => svcWords.map (ShmWord.svc i)) ++
    [.groupCount] ++ (range shmMaxGroups).flatMap (fun i => groupWords.map (ShmWord.group i)) ++ [.systemState]

def shmLayout : Layout ShmWord Int where
  version := .seq
  next := fun v => (v + 1) % 2 ^ 32
  cells := shmWords

/-! ## `shm_update` -/

def shmName (name : Bytes) (k : Nat) : Int :=
  ((name.getD k 0).toNat : Int)

def shmLimp (table : List Service) (i : Nat) : Nat :=
  let s := table.getD i default
  let fallback := if s.rt.card.fallbackLive then serviceFallback table i else none
  (if fallback.any fun j => (table.getD j default).rt.card.standbyUp then 4 else 0) +
    (if serviceIsStandby table i then if s.rt.card.standbyUp then 2 else 1 else 0)

def shmService (table : List Service) (i : Nat) : List (ShmWord × Int) :=
  let s := table.getD i default
  let fields : List (SvcWord × Int) :=
    [(.state, s.rt.inst.state.code), (.weight, s.rt.inst.weight % 256), (.childPid, s.rt.childPid),
      (.restartCount, s.rt.restartCount), (.cardPlayed, s.rt.card.next % 256), (.cardCount, s.conf.cards.length % 256),
      (.limp, shmLimp table i)]
  ((range shmNameLen).map (fun k => (SvcWord.name k, shmName s.conf.name k)) ++ fields).map fun x => (.svc i x.1, x.2)

def shmGroup (groups : List Group) (i : Nat) : List (ShmWord × Int) :=
  let g := groups.getD i default
  let fields : List (GroupWord × Int) := [(.state, g.state.code), (.memberCount, g.memberName.length)]
  ((range shmNameLen).map (fun k => (GroupWord.name k, shmName g.name k)) ++ fields).map fun x => (.group i x.1, x.2)

/-- The writes of `shm_update` in their order, but for the last, which puts `seq` up. -/
def shmUpdate (e : Pid1) : List (ShmWord × Int) :=
  (range e.services.length).flatMap (shmService e.services) ++ [(.count, (e.services.length : Int))] ++
    (range e.groups.length).flatMap (shmGroup e.groups) ++ [(.groupCount, (e.groups.length : Int))]

/-! ## Writer and reader -/

abbrev Shm := SeqLock.State ShmWord Int

inductive ShmEvent where
  /-- `shm_update` begins in this state of PID 1 -/
  | update (e : Pid1)
  | write
  /-- `shm_ptr->seq++` -/
  | publish
  /-- the reader reads `seq` -/
  | start
  /-- `memcpy` copies the next word -/
  | copy
  /-- the reader reads `seq` again -/
  | finish

def ShmEvent.event : ShmEvent → SeqLock.Event ShmWord Int
  | .update e => .begin (shmUpdate e)
  | .write => .write
  | .publish => .publish
  | .start => .start
  | .copy => .read
  | .finish => .finish

def shmStep (s : Shm) (e : ShmEvent) : Shm :=
  SeqLock.step shmLayout s e.event

/-- The reader does not start before the first update is complete, copies no word that the update
under way has already written, and sees fewer than 2^32 updates complete. -/
def ShmClean (s : Shm) : ShmEvent → Prop
  | .start => s.log ≠ []
  | .copy => ∀ r ∈ s.reader, ∀ a ∈ r.todo.head?, ∀ w ∈ s.writer, a ∉ w.1.map Prod.fst
  | .finish => ∀ r ∈ s.reader, s.log.length < r.since + 2 ^ 32
  | _ => True

theorem plain_shmUpdate (e : Pid1) : Plain shmLayout (shmUpdate e) := by
  have hsvc (i : Nat) : ∀ w ∈ shmService e.services i, w.1 ≠ .seq := by
    intro w hw
    obtain ⟨x, -, rfl⟩ := mem_map.mp hw
    exact ShmWord.noConfusion
  have hgrp (i : Nat) : ∀ w ∈ shmGroup e.groups i, w.1 ≠ .seq := by
    intro w hw
    obtain ⟨x, -, rfl⟩ := mem_map.mp hw
    exact ShmWord.noConfusion
  intro w hw
  simp only [shmUpdate, mem_append, mem_flatMap, mem_singleton] at hw
  rcases hw with ((⟨i, -, hw⟩ | rfl) | ⟨i, -, hw⟩) | rfl
  · exact hsvc i w hw
  · simp [shmLayout]
  · exact hgrp i w hw
  · simp [shmLayout]

theorem iterate_counter_ne {m : Int} {n : Nat} (v : Int) (hn : 0 < n) (hm : (n : Int) < m) :
    (fun v : Int => (v + 1) % m)^[n] v ≠ v := by
  have hcount : ∀ k : Nat, (fun v : Int => (v + 1) % m)^[k + 1] v = (v + (k + 1 : Nat)) % m := by
    intro k
    induction k with
    | zero => rfl
    | succ k ih =>
      rw [Function.iterate_succ_apply', ih, Int.emod_add_emod]
      congr 1
      omega
  obtain ⟨k, rfl⟩ : ∃ k, n = k + 1 := ⟨n - 1, by omega⟩
  rw [hcount]
  intro heq
  have hpos : 0 < m := by omega
  have hlt := Int.emod_lt_of_pos (v + (k + 1 : Nat)) hpos
  have hnonneg := Int.emod_nonneg (v + (k + 1 : Nat)) (Int.ne_of_gt hpos)
  rw [heq] at hlt hnonneg
  have hv : v % m = v := Int.emod_eq_of_lt hnonneg hlt
  have hdvd : m ∣ (k + 1 : Nat) := by
    have hsub : (v + (k + 1 : Nat) - v) % m = 0 := Int.emod_eq_emod_iff_emod_sub_eq_zero.mp (heq.trans hv.symm)
    have hcancel : v + (k + 1 : Nat) - v = (k + 1 : Nat) := by omega
    rw [hcancel] at hsub
    exact Int.dvd_of_emod_eq_zero hsub
  have := Int.le_of_dvd (by omega) hdvd
  omega

/-! ## Two readers -/

def oneService (state : State) (pid : Nat) : Pid1 :=
  let s := Service.fresh { name := cstr "a", exec := cstr "/bin/a" } {}
  { services := [{ s with rt.childPid := pid, rt.inst.state := state }] }

def wholeUpdate (e : Pid1) : List ShmEvent :=
  .update e :: (replicate (shmUpdate e).length .write ++ [.publish])

def readsAlone : List ShmEvent :=
  .start :: (replicate shmWords.length .copy ++ [.finish])

theorem foldl_shmStep (es : List ShmEvent) (s : Shm) :
    es.foldl shmStep s = (es.map ShmEvent.event).foldl (SeqLock.step shmLayout) s := by
  rw [foldl_map]
  rfl

theorem readsAlone_accepts {s : Shm} (h : s.reader = none) :
    readsAlone.foldl shmStep s = { s with accepted := s.accepted ++ [shmWords.map fun a => (a, s.mem a)] } := by
  have hevents : readsAlone.map ShmEvent.event = readAlone shmLayout := by
    have hcells : shmLayout.cells = shmWords := rfl
    rw [readsAlone, readAlone, hcells]
    generalize shmWords.length = n
    simp [ShmEvent.event]
  rw [foldl_shmStep, hevents]
  exact readAlone_accepts s h

theorem readsAlone_clean {s : Shm} (hreader : s.reader = none) (hwriter : s.writer = none) (hlog : s.log ≠ []) :
    Run.AllOk shmStep ShmClean s readsAlone := by
  have hcopies : ∀ (todo : List ShmWord) (s : Shm) (v : Int) (n : Nat) (got : List (ShmWord × Int)),
      s.reader = some ⟨v, n, got, todo⟩ → s.writer = none → s.log.length = n →
        Run.AllOk shmStep ShmClean s (replicate todo.length .copy ++ [.finish]) := by
    intro todo
    induction todo with
    | nil =>
      intro s v n got hr hw hn
      refine ⟨fun r hmem => ?_, trivial⟩
      rw [hr] at hmem
      cases hmem
      show s.log.length < n + 2 ^ 32
      omega
    | cons a todo ih =>
      intro s v n got hr hw hn
      have hcopy : shmStep s .copy = { s with reader := some ⟨v, n, got ++ [(a, s.mem a)], todo⟩ } := by
        simp [shmStep, ShmEvent.event, SeqLock.step, hr]
      refine ⟨fun _ _ _ _ w hmem => ?_, ?_⟩
      · rw [hw] at hmem
        cases hmem
      · rw [hcopy]
        exact ih _ v n _ rfl hw hn
  have hstart : shmStep s .start =
      { s with reader := some { version := s.mem .seq, since := s.log.length, got := [], todo := shmWords } } := by
    simp only [shmStep, ShmEvent.event, SeqLock.step, hreader]
    rfl
  rw [readsAlone]
  refine Run.AllOk.cons hlog ?_
  rw [hstart]
  generalize shmWords = words
  exact hcopies words _ _ _ _ rfl hwriter rfl

/-- The service is started.  The update that says so gets as far as the state. -/
def halfUpdate : List ShmEvent :=
  wholeUpdate (oneService .newProcess 0) ++
    .update (oneService .fullTrust 77) :: replicate (shmNameLen + 1) .write

def tornState : Shm :=
  halfUpdate.foldl shmStep (SeqLock.State.fresh fun _ => 0)

theorem state_mem_shmWords : ShmWord.svc 0 .state ∈ shmWords := by
  have hsvc : ShmWord.svc 0 .state ∈ (range shmMax).flatMap fun i => svcWords.map (ShmWord.svc i) :=
    mem_flatMap.mpr ⟨0, mem_range.mpr (by decide), mem_map_of_mem (by simp [svcWords])⟩
  simp only [shmWords, mem_append]
  exact .inl (.inl (.inl (.inr hsvc)))

/-- The reader starts and ends within the second update, and accepts a copy with the new state and
the old pid, which the table never had. -/
theorem torn_copy_accepted : let s := readsAlone.foldl shmStep tornState
    let copy := shmWords.map fun a => (a, tornState.mem a)
    copy ∈ s.accepted ∧ (∀ t ∈ s.log, copy ≠ shmWords.map fun a => (a, t a)) ∧
      (tornState.mem (.svc 0 .state), tornState.mem (.svc 0 .childPid)) = ((State.fullTrust.code : Int), 0) := by
  have hreader : tornState.reader = none := by decide +kernel
  have hold : ∀ t ∈ tornState.log, t (.svc 0 .state) ≠ tornState.mem (.svc 0 .state) := by decide +kernel
  have hwords (words : List ShmWord) {t : ShmWord → Int}
      (heq : (words.map fun a => (a, tornState.mem a)) = words.map fun a => (a, t a)) {a : ShmWord} (ha : a ∈ words) :
      (a, tornState.mem a) = (a, t a) :=
    map_inj_left.mp heq a ha
  rw [readsAlone_accepts hreader]
  refine ⟨mem_append_right _ (mem_singleton_self _), fun t ht heq => ?_, by decide +kernel⟩
  have hword : (ShmWord.svc 0 .state, tornState.mem (.svc 0 .state)) = (ShmWord.svc 0 .state, t (.svc 0 .state)) :=
    hwords shmWords heq state_mem_shmWords
  dsimp only at ht
  exact hold t ht (Prod.mk.inj hword).2.symm

/-! ## The result -/

def betweenUpdates : Shm :=
  (wholeUpdate (oneService .fullTrust 77)).foldl shmStep (SeqLock.State.fresh fun _ => 0)

theorem wholeUpdate_clean (e : Pid1) (s : Shm) : Run.AllOk shmStep ShmClean s (wholeUpdate e) := by
  refine .of_forall (fun event hevent s => ?_) s
  simp only [wholeUpdate, mem_cons, mem_append, mem_replicate, not_mem_nil, or_false] at hevent
  rcases hevent with rfl | ⟨-, rfl⟩ | rfl
  all_goals trivial

/-- In every run in which the reader stays clear of the update under way, every copy it accepts is
the table exactly as it stood after some update. -/
theorem shm_copies_whole {mem : ShmWord → Int} {s : Shm}
    (h : Run.Reaches shmStep ShmClean (SeqLock.State.fresh mem) s) :
    ∀ copy ∈ s.accepted, ∃ t ∈ s.log, copy = shmWords.map fun a => (a, t a) := by
  have hperiod : ∀ v n, 0 < n → n < 2 ^ 32 → shmLayout.next^[n] v ≠ v := by
    intro v n hn hlt
    exact iterate_counter_ne v hn (by exact_mod_cast hlt)
  refine accepted_published hperiod (h.map ShmEvent.event fun s e he => ⟨?_, rfl⟩)
  cases e with
  | update e => exact plain_shmUpdate e
  | write => trivial
  | publish => trivial
  | start => exact he
  | copy => exact he
  | finish => exact he

theorem shm_copies_whole_between : let s := readsAlone.foldl shmStep betweenUpdates
    (shmWords.map fun a => (a, betweenUpdates.mem a)) ∈ s.accepted ∧
      ∀ copy ∈ s.accepted, ∃ t ∈ s.log, copy = shmWords.map fun a => (a, t a) := by
  have hreader : betweenUpdates.reader = none := by decide +kernel
  have hwriter : betweenUpdates.writer = none := by decide +kernel
  have hlog : betweenUpdates.log ≠ [] := by
    have hlen : betweenUpdates.log.length = 1 := by decide +kernel
    exact ne_nil_of_length_pos (by omega)
  have hupdate := (wholeUpdate_clean (oneService .fullTrust 77) (SeqLock.State.fresh fun _ => 0)).reaches
  refine ⟨?_, shm_copies_whole (hupdate.trans (readsAlone_clean hreader hwriter hlog).reaches)⟩
  rw [readsAlone_accepts hreader]
  exact mem_append_right _ (mem_singleton_self _)

end SchemaInit.Engine
