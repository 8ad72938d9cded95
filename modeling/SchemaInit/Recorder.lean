/-
# `SchemaInit.Recorder` — the flight recorder's shared memory

`schema-recorder` is the one writer of its segment: `rec_ring_push` and `rec_arrow_set` make
`seq` odd, write word after word, and make it even again.  `rec_snapshot_ring` and
`rec_snapshot_arrow` read `seq`, copy words if it is even, and return 0 if it is then still the
same; giving up after 100 attempts only makes their runs fewer.  Writer and reader take turns in
any order, and the reader copies its words in any order.

The writer is described by what it has still to write: `Inv` says that this turns the memory
into the one behind all updates begun so far, `after`.
-/
import SchemaInit.Lib.Run
import Mathlib.Logic.Function.Basic

namespace SchemaInit.Recorder

open List
open Function (update update_of_ne update_self)

/-- A word of `rec_shm_t`. -/
inductive Word where
  | magic
  | seq
  | head
  | count
  | arrow (k : Nat)
  | ring (i k : Nat)
  deriving DecidableEq

abbrev Mem := Word → Nat

/-- `REC_RING` -/
def recRing : Nat := 128

/-- `sizeof(rec_event_t)`, in words of four bytes -/
def eventWords : Nat := 78

/-- `sizeof(rec_arrow_t)` -/
def arrowWords : Nat := 48

/-- `rec_ring_push` or `rec_arrow_set`, with the words of its argument -/
inductive Update where
  | push (e : Nat → Nat)
  | arrow (a : Nat → Nat)

/-- What an update writes behind the store that makes `seq` odd. -/
def Update.writes (m : Mem) : Update → List (Word × Nat)
  | .push e =>
    (List.range eventWords).map (fun k => (.ring (m .head % recRing) k, e k)) ++
      (.head, (m .head + 1) % 2 ^ 32) ::
        (if m .count < recRing then [(.count, m .count + 1)] else [])
  | .arrow a => (List.range arrowWords).map fun k => (.arrow k, a k)

def Update.todo (m : Mem) (u : Update) : List (Word × Nat) :=
  u.writes m ++ [(.seq, (m .seq + 2) % 2 ^ 32)]

def store (m : Mem) (ws : List (Word × Nat)) : Mem :=
  ws.foldl (fun m w => update m w.1 w.2) m

/-- The segment as `schema-recorder` sets it up: `rec_shm_map` refuses one without the magic. -/
def zeroed : Mem
  | .magic => 0x53434652
  | _ => 0

/-- The memory when these updates are complete. -/
def after (us : List Update) : Mem :=
  us.foldl (fun m u => store m (u.todo m)) zeroed

/-- A turn of the loop in a snapshot function: the `seq` it began with, the updates begun by
then, and what it has copied. -/
structure Attempt where
  s1 : Nat
  since : Nat
  out : List (Word × Nat)

structure State where
  mem : Mem
  /-- what the update under way has still to write -/
  todo : List (Word × Nat)
  /-- begun so far -/
  updates : List Update
  reader : Option Attempt

inductive Event where
  | begin (u : Update)
  | write
  | start
  | read (a : Word)
  | finish

def step (s : State) : Event → State
  | .begin u =>
    if s.todo = [] then
      { s with
        mem := update s.mem .seq ((s.mem .seq + 1) % 2 ^ 32)
        todo := u.todo s.mem
        updates := s.updates ++ [u] }
    else s
  | .write =>
    match s.todo with
    | [] => s
    | w :: ws => { s with mem := update s.mem w.1 w.2, todo := ws }
  | .start =>
    if s.reader.isNone ∧ s.mem .seq % 2 = 0 then
      { s with reader := some ⟨s.mem .seq, s.updates.length, []⟩ }
    else s
  | .read a => { s with reader := s.reader.map fun r => { r with out := r.out ++ [(a, s.mem a)] } }
  | .finish => { s with reader := none }

/-- A `finish` in this state makes the call return 0 with this attempt's copy. -/
def State.Returns (s : State) (r : Attempt) : Prop :=
  s.reader = some r ∧ s.mem .seq = r.s1

def State.init : State := ⟨zeroed, [], [], none⟩

/-! ## Stores -/

variable {m m' : Mem} {a : Word} {ws : List (Word × Nat)} {u : Update} {ps : List (Nat → Nat)} {s : State}

theorem store_congr (h : m a = m' a) (ws : List (Word × Nat)) : store m ws a = store m' ws a := by
  induction ws generalizing m m' with
  | nil => exact h
  | cons w ws ih =>
    refine ih ?_
    by_cases haw : a = w.1 <;> simp [haw, h]

theorem store_append (m : Mem) (ws ws' : List (Word × Nat)) : store m (ws ++ ws') = store (store m ws) ws' :=
  foldl_append ..

theorem store_other (h : a ∉ ws.map Prod.fst) : store m ws a = m a := by
  induction ws generalizing m with
  | nil => rfl
  | cons w ws ih =>
    rw [map_cons, mem_cons, not_or] at h
    exact (ih h.2).trans (update_of_ne h.1 ..)

theorem store_map {f : Nat → Word} (hf : f.Injective) (g : Nat → Nat) (m : Mem) {n k : Nat} (hk : k < n) :
    store m ((List.range n).map fun i => (f i, g i)) (f k) = g k := by
  induction n with
  | zero => omega
  | succ n ih =>
    rw [range_succ, map_append, store_append]
    rcases Nat.lt_or_eq_of_le (Nat.le_of_lt_succ hk) with hlt | rfl
    · exact (update_of_ne (fun h => hlt.ne (hf h)) ..).trans (ih hlt)
    · exact update_self ..

/-! ## What the updates make of the memory -/

theorem after_append (us : List Update) (u : Update) : after (us ++ [u]) = store (after us) (u.todo (after us)) :=
  foldl_append ..

theorem todo_seq (m m' : Mem) (u : Update) : store m (u.todo m') .seq = (m' .seq + 2) % 2 ^ 32 := by
  rw [Update.todo, store_append]
  simp [store]

theorem after_seq (us : List Update) : after us .seq = 2 * us.length % 2 ^ 32 := by
  induction us using List.reverseRecOn with
  | nil => rfl
  | append_singleton us u ih =>
    rw [after_append, todo_seq, ih, length_append]
    simp only [length_singleton]
    omega

theorem writes_ne_seq : ∀ w ∈ u.writes m, w.1 ≠ .seq := by
  cases u <;> simp [Update.writes, or_imp, forall_and]

/-- That `seq` was odd on the way leaves no trace. -/
theorem store_todo (m : Mem) (u : Update) (v : Nat) :
    store (update m .seq v) (u.todo m) = store m (u.todo m) := by
  funext a
  by_cases ha : a = .seq
  · rw [ha, todo_seq, todo_seq]
  · exact store_congr (update_of_ne ha ..) _

/-! ## The ring -/

def pushes (us : List Update) : List (Nat → Nat) :=
  us.filterMap fun
    | .push e => some e
    | .arrow _ => none

/-- The ring of `m` holds the last of these events: number `n` is in slot `n % REC_RING`, as
`rec_best_arrow` reads them. -/
structure RingOf (m : Mem) (ps : List (Nat → Nat)) : Prop where
  head : m .head = ps.length
  count : m .count = min ps.length recRing
  last : ∀ n (h : n < ps.length), ps.length - m .count ≤ n →
    ∀ k < eventWords, m (.ring (n % recRing) k) = ps[n] k

/-- A word of the ring behind a push. -/
theorem push_ring (m : Mem) (e : Nat → Nat) (i k : Nat) : store m ((Update.push e).todo m) (.ring i k) =
      if i = m .head % recRing ∧ k < eventWords then e k else m (.ring i k) := by
  rw [Update.todo, Update.writes, append_assoc, store_append, store_other (by split <;> simp)]
  split
  · rename_i h
    rw [h.1]
    exact store_map (fun _ _ h => (Word.ring.inj h).2) e m h.2
  · rename_i h
    refine store_other ?_
    simp only [map_map, mem_map, mem_range]
    rintro ⟨j, hj, ⟨⟩⟩
    exact h ⟨rfl, hj⟩

theorem RingOf.push (h : RingOf m ps) (e : Nat → Nat)
    (hlen : ps.length + 1 < 2 ^ 32) : RingOf (store m ((Update.push e).todo m)) (ps ++ [e]) := by
  have hhead : store m ((Update.push e).todo m) .head = ps.length + 1 := by
    rw [Update.todo, Update.writes, store_append, store_append, ← Nat.mod_eq_of_lt hlen, ← h.head]
    split <;> simp [store]
  have hcount : store m ((Update.push e).todo m) .count = min (ps.length + 1) recRing := by
    have hold := h.count
    by_cases hfull : m .count < recRing
    · rw [Update.todo, Update.writes, if_pos hfull, store_append, store_append]
      simp [store]
      omega
    · rw [store_other (by simp [Update.todo, Update.writes, hfull])]
      omega
  refine ⟨by simpa using hhead, by simpa using hcount, fun n hn hle k hk => ?_⟩
  rw [hcount, length_append, length_singleton] at hle
  rw [length_append, length_singleton] at hn
  rw [push_ring, h.head]
  rcases Nat.lt_or_eq_of_le (Nat.le_of_lt_succ hn) with hlt | rfl
  · have hne : n % recRing ≠ ps.length % recRing := by
      unfold recRing at hle ⊢
      omega
    rw [if_neg fun h => hne h.1, getElem_append_left hlt]
    exact h.last n hlt (by rw [h.count]; omega) k hk
  · simp [hk]

theorem RingOf.arrow (h : RingOf m ps) (a : Nat → Nat) : RingOf (store m ((Update.arrow a).todo m)) ps := by
  have hm {w : Word} (hw : w ∉ ((Update.arrow a).todo m).map Prod.fst) := store_other (m := m) hw
  simp only [Update.todo, Update.writes] at hm ⊢
  refine ⟨(hm (by simp)).trans h.head, (hm (by simp)).trans h.count, fun n hn hle k hk => ?_⟩
  rw [hm (by simp)] at hle ⊢
  exact h.last n hn hle k hk

theorem after_ring {us : List Update} (hlen : (pushes us).length < 2 ^ 32) : RingOf (after us) (pushes us) := by
  induction us using List.reverseRecOn with
  | nil => exact ⟨rfl, rfl, nofun⟩
  | append_singleton us u ih =>
    rw [pushes, filterMap_append] at hlen ⊢
    rw [after_append]
    cases u with
    | push e =>
      simp only [length_append] at hlen
      exact (ih (by unfold pushes; omega)).push e hlen
    | arrow a => simpa [pushes] using (ih (by simpa [pushes] using hlen)).arrow a

/-! ## Every interleaving -/

structure Inv (s : State) : Prop where
  mem : store s.mem s.todo = after s.updates
  odd : s.todo ≠ [] → s.mem .seq % 2 = 1
  plain : ∀ w ∈ s.todo.dropLast, w.1 ≠ .seq
  reader : ∀ r ∈ s.reader, r.since ≤ s.updates.length ∧ r.s1 = 2 * r.since % 2 ^ 32 ∧
    (s.updates.length = r.since → s.todo = [] ∧ ∀ x ∈ r.out, x.2 = s.mem x.1)

theorem Inv.seq (h : Inv s) (hidle : s.todo = []) :
    s.mem = after s.updates ∧ s.mem .seq = 2 * s.updates.length % 2 ^ 32 := by
  have hmem := h.mem
  rw [hidle] at hmem
  exact ⟨hmem, (congrFun hmem _).trans (after_seq _)⟩

theorem Inv.step (h : Inv s) (e : Event) : Inv (step s e) := by
  cases e with
  | begin u =>
    simp only [Recorder.step]
    split
    · rename_i hidle
      obtain ⟨hmem, hseq⟩ := h.seq hidle
      refine ⟨?_, fun _ => ?_, ?_, fun r hr => ?_⟩
      · rw [after_append, ← hmem]
        exact store_todo ..
      · simp only [update_self, hseq]
        omega
      · simpa [Update.todo] using writes_ne_seq
      · obtain ⟨hsince, hs1, -⟩ := h.reader r hr
        simp only [length_append, length_singleton]
        exact ⟨by omega, hs1, fun h => by omega⟩
    · exact h
  | write =>
    simp only [Recorder.step]
    split
    · exact h
    · rename_i w ws htodo
      have hmem := h.mem
      have hplain := h.plain
      rw [htodo] at hmem hplain
      refine ⟨hmem, fun hne => ?_, fun x hx => ?_, fun r hr => ?_⟩
      · rw [dropLast_cons_of_ne_nil hne] at hplain
        exact (congrArg (· % 2) (update_of_ne (hplain w (mem_cons_self ..)).symm ..)).trans
          (h.odd (by simp [htodo]))
      · cases ws with
        | nil => cases hx
        | cons w' ws => exact hplain x (mem_cons_of_mem _ hx)
      · obtain ⟨hsince, hs1, hout⟩ := h.reader r hr
        -- an update is under way, so it began after the attempt
        exact ⟨hsince, hs1, fun heq => absurd (hout heq).1 (by simp [htodo])⟩
  | start =>
    simp only [Recorder.step]
    split
    · rename_i hstart
      have hidle : s.todo = [] := by
        by_contra hne
        have := h.odd hne
        omega
      refine ⟨h.mem, h.odd, h.plain, fun r hr => ?_⟩
      obtain rfl := Option.some.inj hr
      exact ⟨le_rfl, (h.seq hidle).2, fun _ => ⟨hidle, nofun⟩⟩
    · exact h
  | read a =>
    refine ⟨h.mem, h.odd, h.plain, fun r hr => ?_⟩
    obtain ⟨r', hr', rfl⟩ := Option.map_eq_some_iff.1 hr
    obtain ⟨hsince, hs1, hout⟩ := h.reader r' hr'
    refine ⟨hsince, hs1, fun heq => ⟨(hout heq).1, fun x hx => ?_⟩⟩
    rcases mem_append.1 hx with hx | hx
    · exact (hout heq).2 x hx
    · obtain rfl := mem_singleton.1 hx
      rfl
  | finish => exact ⟨h.mem, h.odd, h.plain, nofun⟩

theorem Inv.init : Inv .init :=
  ⟨rfl, fun h => absurd rfl h, nofun, nofun⟩

/-- A copy that a snapshot function returns 0 with is the memory behind all updates begun so
far, and they are all complete. -/
theorem snapshot_whole (h : Run.Reaches step (fun _ _ => True) .init s) {r : Attempt}
    (hret : s.Returns r) (hfew : s.updates.length < r.since + 2 ^ 31) :
    s.todo = [] ∧ (∀ x ∈ r.out, x.2 = after s.updates x.1) ∧
      ((pushes s.updates).length < 2 ^ 32 → RingOf (after s.updates) (pushes s.updates)) := by
  have hinv : Inv s := h.invariant Inv .init fun _ e h _ => h.step e
  obtain ⟨hsince, hs1, hout⟩ := hinv.reader r hret.1
  have hidle : s.todo = [] := by
    by_contra hne
    have := hinv.odd hne
    have := hret.2
    omega
  obtain ⟨hmem, hseq⟩ := hinv.seq hidle
  have heq : s.updates.length = r.since := by
    have := hret.2
    omega
  exact ⟨hidle, hmem ▸ (hout heq).2, after_ring⟩

/-- An arrow is set and an event pushed, and a reader copies a word of each and `count`. -/
def arrowRun : List Event :=
  .begin (.arrow id) :: List.replicate (arrowWords + 1) .write ++
    .begin (.push id) :: List.replicate (eventWords + 3) .write ++
    [.start, .read (.arrow 5), .read (.ring 0 7), .read .count]

set_option maxRecDepth 4000 in
theorem snapshot_whole_arrow : (arrowRun.foldl step .init).todo = [] ∧
    ∀ x ∈ [(Word.arrow 5, 5), (.ring 0 7, 7), (.count, 1)], x.2 = after (arrowRun.foldl step .init).updates x.1 := by
  have hrun : Run.Reaches step (fun _ _ => True) .init (arrowRun.foldl step .init) :=
    (Run.AllOk.of_forall (fun _ _ _ => trivial) _).reaches
  have h := snapshot_whole hrun ⟨rfl, rfl⟩ (by decide)
  exact ⟨h.1, h.2.1⟩

end SchemaInit.Recorder
