/-
# `SchemaInit.Lib.SeqLock` — a table in shared memory with a version

One writer updates a table word by word and then puts its version up.  A reader
reads the version, copies the table word by word, and reads the version again; it
takes the copy if the two are equal.  Writer and reader take turns in any order, a
word at a time.

Such a version is put up after an update only, so a reader that starts and ends
within one update does not notice it.  `accepted_published` says what is left: a
copy is a table as it stood after some update if no word was read that the update
under way had already written, and the version did not come round in between.
-/
import SchemaInit.Lib.Run

namespace SchemaInit.SeqLock

open List
open Function (update update_of_ne)

variable {ι V : Type*}

/-- A copy being made. -/
structure Attempt (ι V : Type*) where
  /-- the version it began with -/
  version : V
  /-- how many updates were complete by then -/
  since : Nat
  got : List (ι × V)
  todo : List ι

/-- The memory and the two programs.  `log` has the table after each complete update, and
`accepted` the copies that were taken. -/
structure State (ι V : Type*) where
  mem : ι → V
  /-- the update under way: what is written and what is still to be -/
  writer : Option (List (ι × V) × List (ι × V))
  reader : Option (Attempt ι V)
  log : List (ι → V)
  accepted : List (List (ι × V))

inductive Event (ι V : Type*) where
  /-- an update with these writes begins -/
  | begin (ws : List (ι × V))
  | write
  /-- the version goes up -/
  | publish
  /-- the reader reads the version -/
  | start
  | read
  /-- the reader reads the version again -/
  | finish

/-- The layout: where the version is, how it goes up, and which words the reader copies. -/
structure Layout (ι V : Type*) where
  version : ι
  next : V → V
  cells : List ι

namespace State

def fresh (mem : ι → V) : State ι V where
  mem := mem
  writer := none
  reader := none
  log := []
  accepted := []

end State

variable (L : Layout ι V)

/-- What an event does; where it is not the program's turn to do it, nothing. -/
def step [DecidableEq ι] [DecidableEq V] (s : State ι V) : Event ι V → State ι V
  | .begin ws =>
    match s.writer with
    | none => { s with writer := some ([], ws) }
    | some _ => s
  | .write =>
    match s.writer with
    | some (before, (a, v) :: rest) =>
      { s with mem := update s.mem a v, writer := some (before ++ [(a, v)], rest) }
    | _ => s
  | .publish =>
    match s.writer with
    | some (_, []) =>
      let mem := update s.mem L.version (L.next (s.mem L.version))
      { s with mem := mem, writer := none, log := s.log ++ [mem] }
    | _ => s
  | .start =>
    match s.reader with
    | none =>
      { s with reader := some { version := s.mem L.version, since := s.log.length, got := [], todo := L.cells } }
    | some _ => s
  | .read =>
    match s.reader with
    | some ⟨v, n, got, a :: rest⟩ => { s with reader := some ⟨v, n, got ++ [(a, s.mem a)], rest⟩ }
    | _ => s
  | .finish =>
    match s.reader with
    | some ⟨v, _, got, []⟩ =>
      if s.mem L.version = v then { s with reader := none, accepted := s.accepted ++ [got] }
      else { s with reader := none }
    | _ => s

/-- Writes of the table leave the version alone. -/
def Plain (ws : List (ι × V)) : Prop :=
  ∀ w ∈ ws, w.1 ≠ L.version

/-- What keeps copies whole: an attempt begins after some update, no word is read that the update
under way has written, and the version does not come round. -/
def Clean (period : Nat) (s : State ι V) : Event ι V → Prop
  | .begin ws => Plain L ws
  | .start => s.log ≠ []
  | .read => ∀ r ∈ s.reader, ∀ a ∈ r.todo.head?, ∀ w ∈ s.writer, a ∉ w.1.map Prod.fst
  | .finish => ∀ r ∈ s.reader, s.log.length < r.since + period
  | _ => True

/-- The table as it stands after the last complete update. -/
def State.published (s : State ι V) : ι → V :=
  s.log.getLastD s.mem

/-! ## The invariant -/

variable {L}

/-- What a writer has not written yet is as it was published. -/
structure WriterInv (L : Layout ι V) (first : V) (s : State ι V) : Prop where
  kept : s.log ≠ [] → ∀ a, (∀ w ∈ s.writer, a ∉ w.1.map Prod.fst) → s.mem a = s.published a
  plain : ∀ w ∈ s.writer, Plain L (w.1 ++ w.2)
  version : s.mem L.version = L.next^[s.log.length] first

/-- As long as no update completes, what is read is as it was published. -/
structure ReaderInv (L : Layout ι V) (first : V) (s : State ι V) (r : Attempt ι V) : Prop where
  since : 0 < r.since ∧ r.since ≤ s.log.length
  version : r.version = L.next^[r.since] first
  cells : r.got.map Prod.fst ++ r.todo = L.cells
  got : s.log.length = r.since → ∀ x ∈ r.got, x.2 = s.published x.1

structure Inv (L : Layout ι V) (first : V) (s : State ι V) : Prop where
  writer : WriterInv L first s
  reader : ∀ r ∈ s.reader, ReaderInv L first s r
  accepted : ∀ copy ∈ s.accepted, ∃ t ∈ s.log, copy = L.cells.map fun a => (a, t a)

theorem Inv.fresh (mem : ι → V) : Inv L (mem L.version) (State.fresh mem) where
  writer := ⟨fun h => absurd rfl h, fun _ h => (nomatch h), rfl⟩
  reader := fun _ h => (nomatch h)
  accepted := fun _ h => (nomatch h)

/-- A list of pairs is made of its first components. -/
theorem eq_map_of_snd {l : List (ι × V)} {t : ι → V} (h : ∀ x ∈ l, x.2 = t x.1) :
    l = (l.map Prod.fst).map fun a => (a, t a) := by
  rw [map_map]
  refine (map_id l).symm.trans (map_congr_left fun x hx => ?_)
  exact Prod.ext rfl (h x hx)

theorem published_concat (s : State ι V) (t : ι → V) (m : ι → V) :
    State.published { s with mem := m, log := s.log ++ [t] } = t := by
  simp [State.published]

theorem published_mem {s : State ι V} (h : s.log ≠ []) : s.published ∈ s.log := by
  rw [State.published, getLastD_eq_getLast?, getLast?_eq_some_getLast h]
  exact getLast_mem h

theorem published_congr {s : State ι V} (hne : s.log ≠ []) (s' : State ι V) (h : s'.log = s.log) :
    s'.published = s.published := by
  unfold State.published
  rw [h, getLastD_eq_getLast?, getLastD_eq_getLast?, getLast?_eq_some_getLast hne]
  rfl

variable {first : V} {s : State ι V}

/-- The reader's invariant is about its own record and the log. -/
theorem ReaderInv.congr {r : Attempt ι V} (h : ReaderInv L first s r) {s' : State ι V} (hlog : s'.log = s.log) :
    ReaderInv L first s' r where
  since := hlog ▸ h.since
  __ := h
  got := fun heq x hx => by
    have hne : s.log ≠ [] := ne_nil_of_length_pos (lt_of_lt_of_le h.since.1 h.since.2)
    rw [published_congr hne s' hlog]
    exact h.got (hlog ▸ heq) x hx

/-- The writer's is about the memory, its own record and the log. -/
theorem WriterInv.reading (h : WriterInv L first s) (r : Option (Attempt ι V)) (acc : List (List (ι × V))) :
    WriterInv L first { s with reader := r, accepted := acc } :=
  { h with }

variable [DecidableEq ι] [DecidableEq V]

section

variable (h : Inv L first s)
include h

theorem Inv.begin {ws : List (ι × V)} (hw : Plain L ws) : Inv L first (step L s (.begin ws)) := by
  simp only [step]
  split
  case h_1 hnone =>
    refine ⟨⟨fun hne a _ => ?_, ?_, h.writer.version⟩, fun r hr => (h.reader r hr).congr rfl, h.accepted⟩
    · exact h.writer.kept hne a (by simp [hnone])
    · rintro w ⟨⟩
      exact hw
  · exact h

theorem Inv.write : Inv L first (step L s .write) := by
  simp only [step]
  split
  case h_1 before a v rest hsome =>
    have hplain := h.writer.plain _ hsome
    have hne : L.version ≠ a := fun heq => hplain (a, v) (by simp) heq.symm
    refine ⟨⟨fun hlog x hx => ?_, ?_, ?_⟩, fun r hr => (h.reader r hr).congr rfl, h.accepted⟩
    · have hold := hx _ rfl
      rw [map_append, mem_append, not_or] at hold
      have hxa : x ≠ a := fun heq => hold.2 (by simp [heq])
      have hmem : s.mem x = s.published x := h.writer.kept hlog x fun w hw => by
        rw [hsome] at hw
        cases hw
        exact hold.1
      exact ((update_of_ne hxa v s.mem).trans hmem).trans
        (congrFun (published_congr (s := s) hlog { s with mem := update s.mem a v } rfl) x).symm
    · rintro w ⟨⟩
      simpa using hplain
    · show update s.mem a v L.version = _
      rw [update_of_ne hne]
      exact h.writer.version
  · exact h

theorem Inv.publish : Inv L first (step L s .publish) := by
  simp only [step]
  split
  case h_1 before hsome =>
    generalize hmem : update s.mem L.version (L.next (s.mem L.version)) = mem
    have hversion : mem L.version = L.next (s.mem L.version) := by rw [← hmem, Function.update_self]
    refine ⟨⟨fun _ a _ => ?_, fun _ hw => (nomatch hw), ?_⟩, fun r hr => ?_, fun copy hcopy => ?_⟩
    · exact (congrFun (published_concat { s with writer := none } mem mem) a).symm
    · show mem L.version = L.next^[(s.log ++ [mem]).length] first
      rw [hversion, h.writer.version, length_append, length_singleton, Function.iterate_succ_apply']
    · have hr' := h.reader r hr
      have hlen : (s.log ++ [mem]).length = s.log.length + 1 := by simp
      refine ⟨⟨hr'.since.1, ?_⟩, hr'.version, hr'.cells, fun heq => ?_⟩
      · show r.since ≤ (s.log ++ [mem]).length
        have := hr'.since.2
        omega
      · have := hr'.since.2
        change (s.log ++ [mem]).length = r.since at heq
        omega
    · obtain ⟨t, ht, hcopy⟩ := h.accepted copy hcopy
      exact ⟨t, mem_append_left _ ht, hcopy⟩
  · exact h

theorem Inv.start (hlog : s.log ≠ []) : Inv L first (step L s .start) := by
  simp only [step]
  split
  · refine ⟨h.writer.reading _ _, ?_, h.accepted⟩
    rintro r ⟨⟩
    exact ⟨⟨length_pos_iff.mpr hlog, le_refl _⟩, h.writer.version, rfl, fun _ _ hx => (nomatch hx)⟩
  · exact h

theorem Inv.read (hclean : ∀ r ∈ s.reader, ∀ a ∈ r.todo.head?, ∀ w ∈ s.writer, a ∉ w.1.map Prod.fst) :
    Inv L first (step L s .read) := by
  simp only [step]
  split
  case h_1 v n got a rest hsome =>
    have hr := h.reader _ hsome
    have hne : s.log ≠ [] := ne_nil_of_length_pos (lt_of_lt_of_le hr.since.1 hr.since.2)
    refine ⟨h.writer.reading _ _, ?_, h.accepted⟩
    rintro r ⟨⟩
    refine ⟨hr.since, hr.version, ?_, fun heq x hx => ?_⟩
    · simpa using hr.cells
    · rcases mem_append.mp hx with hx | hx
      · exact hr.got heq x hx
      · obtain rfl := mem_singleton.mp hx
        exact h.writer.kept hne a (hclean _ hsome a rfl)
  · exact h

end

/-- The version is the same, so no update has completed, and all that was read was published. -/
theorem Inv.finish {period : Nat} (hperiod : ∀ v n, 0 < n → n < period → L.next^[n] v ≠ v) (h : Inv L first s)
    (hclean : ∀ r ∈ s.reader, s.log.length < r.since + period) : Inv L first (step L s .finish) := by
  simp only [step]
  split
  case h_1 v n got hsome =>
    have hr := h.reader _ hsome
    split
    case isTrue hsame =>
      have hsince : s.log.length = n := by
        by_contra hne
        obtain ⟨k, hk⟩ := Nat.le.dest hr.since.2
        have hk' : n + k = s.log.length := hk
        have hlt : s.log.length < n + period := hclean _ hsome
        refine hperiod (L.next^[n] first) k (by omega) (by omega) ?_
        have hversion : v = L.next^[n] first := hr.version
        rw [← Function.iterate_add_apply, Nat.add_comm, hk', ← h.writer.version, hsame, hversion]
      have hne : s.log ≠ [] := ne_nil_of_length_pos (lt_of_lt_of_le hr.since.1 hr.since.2)
      refine ⟨h.writer.reading _ _, fun _ hr => (nomatch hr), fun copy hcopy => ?_⟩
      rcases mem_append.mp hcopy with hcopy | hcopy
      · exact h.accepted copy hcopy
      · obtain rfl := mem_singleton.mp hcopy
        refine ⟨s.published, published_mem hne, ?_⟩
        have hcells : copy.map Prod.fst = L.cells := by simpa using hr.cells
        rw [← hcells]
        exact eq_map_of_snd (hr.got hsince)
    · exact ⟨h.writer.reading _ _, fun _ hr => (nomatch hr), h.accepted⟩
  · exact h

theorem Inv.step {period : Nat} (hperiod : ∀ v n, 0 < n → n < period → L.next^[n] v ≠ v) (h : Inv L first s)
    {e : Event ι V} (he : Clean L period s e) : Inv L first (SeqLock.step L s e) := by
  cases e with
  | begin ws => exact h.begin he
  | write => exact h.write
  | publish => exact h.publish
  | start => exact h.start he
  | read => exact h.read he
  | finish => exact h.finish hperiod he

/-- In every run of clean steps every copy that is accepted is the table after some update. -/
theorem accepted_published {period : Nat} (hperiod : ∀ v n, 0 < n → n < period → L.next^[n] v ≠ v) {mem : ι → V}
    {s : State ι V} (h : Run.Reaches (step L) (Clean L period) (State.fresh mem) s) :
    ∀ copy ∈ s.accepted, ∃ t ∈ s.log, copy = L.cells.map fun a => (a, t a) :=
  (h.invariant (Inv L (mem L.version)) (Inv.fresh mem) fun _ _ hu he => hu.step hperiod he).accepted

/-! ## A reader that is not disturbed -/

/-- The reader's part of a run in which the writer does not get a turn. -/
def readAlone (L : Layout ι V) : List (Event ι V) :=
  .start :: (List.replicate L.cells.length .read ++ [.finish])

theorem foldl_read (s : State ι V) {v : V} {n : Nat} {got : List (ι × V)} {todo : List ι}
    (h : s.reader = some ⟨v, n, got, todo⟩) :
    (List.replicate todo.length Event.read).foldl (step L) s =
      { s with reader := some ⟨v, n, got ++ todo.map fun a => (a, s.mem a), []⟩ } := by
  induction todo generalizing s got with
  | nil =>
    rw [map_nil, append_nil, ← h]
    rfl
  | cons a todo ih =>
    have hstep : step L s .read = { s with reader := some ⟨v, n, got ++ [(a, s.mem a)], todo⟩ } := by
      simp only [step, h]
    rw [length_cons, replicate_succ, foldl_cons, hstep, ih _ rfl]
    simp

/-- It accepts the memory as it stands, whatever the writer is in the middle of. -/
theorem readAlone_accepts (s : State ι V) (h : s.reader = none) :
    (readAlone L).foldl (step L) s = { s with accepted := s.accepted ++ [L.cells.map fun a => (a, s.mem a)] } := by
  have hstart : step L s .start =
      { s with reader := some { version := s.mem L.version, since := s.log.length, got := [], todo := L.cells } } := by
    simp only [step, h]
  rw [readAlone, foldl_cons, foldl_append, hstart, foldl_read _ rfl]
  simp [step, h]

end SchemaInit.SeqLock
