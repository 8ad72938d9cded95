/-
# `SchemaInit.FdClose.Ledger` — who still has to close what

The bookkeeping of `fdclose.h` is right when it is a ledger: every descriptor
handed over and not yet closed is waiting in exactly one place, namely in the
script of one closer, in the parked list, in PID 1's hands, or (when the
overflow closer has been killed) in the record of what it was given.  `refs`
counts these places for a number, `Waiting` says that the number still is a
handed-over descriptor, and `Inv.ledger` equates the two.

Each function of the model has one lemma here that says what it does to the
ledger.  `close` takes a number out of PID 1's hands (`Inv.close`), `spawn`
puts it into a closer or parks it (`Inv.spawn`), the moves of a closer keep it
(`Inv.move`), and burying a closer turns what it had not reached into the live
part of the record (`Inv.bury`).
-/
import SchemaInit.FdClose.Model

namespace SchemaInit.FdClose

open List KeyedList

/-! ## The ledger -/

/-- How many entries of the record for `fd` still name what is open there. -/
def liveCount (get : Int → Option Nat) (rec : List (Int × Option Nat)) (fd : Int) : Nat :=
  rec.countP (fun r => r.1 = fd ∧ r.2.isSome ∧ get fd = r.2)

def recCount (s : State) (fd : Int) : Nat :=
  if s.ovf.isSome then 0 else liveCount s.table.get s.ovfFds fd

def refs (s : State) (fd : Int) : Nat :=
  (s.procs.map (fun p => p.todo.count fd)).sum + s.parked.count fd + recCount s fd

def Waiting (s : State) (fd : Int) : Prop :=
  ∃ f ∈ s.handed, s.table.get fd = some f

instance (s : State) (fd : Int) : Decidable (Waiting s fd) :=
  inferInstanceAs (Decidable (∃ f ∈ s.handed, s.table.get fd = some f))

def due (s : State) (fd : Int) : Nat :=
  if Waiting s fd then 1 else 0

def closedFiles (s : State) : List Nat :=
  s.closes.filterMap Prod.snd

/-- The ledger and what it rests on, with the numbers PID 1 is about to pass
on in `held`. -/
structure Core (s : State) (held : List Int) : Prop where
  ledger : ∀ fd, refs s fd + held.count fd = due s fd
  limit : s.table.limit = parkMax
  inj : ∀ fd fd' f, s.table.get fd = some f → s.table.get fd' = some f → fd = fd'
  fresh : ∀ fd f, s.table.get fd = some f → f < s.nextFile
  handedLt : ∀ f ∈ s.handed, f < s.nextFile
  closesOk : ∀ c ∈ s.closes, ∃ f ∈ s.handed, c.2 = some f
  once : (closedFiles s).Nodup
  gone : ∀ f ∈ closedFiles s, ∀ fd, s.table.get fd ≠ some f
  accounted : ∀ f ∈ s.handed, f ∈ closedFiles s ∨ ∃ fd, s.table.get fd = some f
  pids : (s.procs.map Proc.pid).Nodup
  pidLt : ∀ p ∈ s.procs, p.pid < s.nextPid
  known : (s.tracked.map Track.pid).Perm (s.procs.map Proc.pid)
  ovfKnown : ∀ pid, s.ovf = some pid → pid ∈ s.procs.map Proc.pid
  single : ∀ p ∈ s.procs, s.ovf ≠ some p.pid → p.todo.length ≤ 1
  reached : ∀ p ∈ s.procs, s.ovf ≠ some p.pid →
    (p.inClose = true ∨ p.exited = true ∨ p.killed = true) → p.todo = []
  finished : ∀ p ∈ s.procs, p.exited = true → p.killed = false → p.todo = []
  recHanded : ∀ r ∈ s.ovfFds, ∃ f ∈ s.handed, r.2 = some f

/-- While the overflow closer is there, its script is the live part of the record. -/
def RecTodo (s : State) : Prop :=
  ∀ p ∈ s.procs, s.ovf = some p.pid →
    ∀ fd, p.todo.count fd = liveCount s.table.get s.ovfFds fd

structure Inv (s : State) (held : List Int) : Prop extends Core s held where
  recTodo : RecTodo s

variable {s : State} {held : List Int} {fd : Int}

/-! ## Reading the ledger -/

theorem liveCount_eq_zero_of_none {get : Int → Option Nat} {rec : List (Int × Option Nat)}
    (h : get fd = none) : liveCount get rec fd = 0 := by
  rw [liveCount, countP_eq_zero]
  rintro ⟨n, o⟩ - hr
  simp only [decide_eq_true_eq, h] at hr
  obtain ⟨-, hsome, rfl⟩ := hr
  cases hsome

theorem liveCount_congr {get get' : Int → Option Nat} {rec : List (Int × Option Nat)}
    (h : get fd = get' fd) : liveCount get rec fd = liveCount get' rec fd := by
  simp only [liveCount, h]

theorem due_le_one (s : State) (fd : Int) : due s fd ≤ 1 := by
  unfold due
  split <;> omega

theorem due_eq_one (h : Waiting s fd) : due s fd = 1 := by
  simp [due, h]

theorem due_eq_zero (h : ¬ Waiting s fd) : due s fd = 0 := by
  simp [due, h]

theorem due_congr {s s' : State} (hget : s'.table.get fd = s.table.get fd)
    (hhanded : s'.handed = s.handed) : due s' fd = due s fd := by
  have hw : Waiting s' fd ↔ Waiting s fd := by
    simp [Waiting, hget, hhanded]
  simp [due, hw]

theorem Core.waiting (h : Core s held) (hpos : 0 < refs s fd + held.count fd) : Waiting s fd := by
  by_contra hn
  have := h.ledger fd
  rw [due_eq_zero hn] at this
  omega

theorem Core.waiting_of_held (h : Core s held) (hmem : fd ∈ held) : Waiting s fd := by
  have := count_pos_iff.mpr hmem
  exact h.waiting (by omega)

theorem count_todo_le {p : Proc} (hp : p ∈ s.procs) (fd : Int) :
    p.todo.count fd ≤ (s.procs.map (fun p => p.todo.count fd)).sum :=
  le_sum (fun p : Proc => p.todo.count fd) hp

theorem Inv.init (b : Bool) : Inv (State.init b) [] where
  ledger := by
    intro fd
    rw [due_eq_zero]
    · simp [refs, recCount, liveCount, State.init]
    · rintro ⟨f, hf, -⟩
      simp [State.init] at hf
  limit := rfl
  inj := by simp [State.init]
  fresh := by simp [State.init]
  handedLt := by simp [State.init]
  closesOk := by simp [State.init]
  once := by simp [closedFiles, State.init]
  gone := by simp [closedFiles, State.init]
  accounted := by simp [State.init]
  pids := by simp [State.init]
  pidLt := by simp [State.init]
  known := by simp [State.init]
  ovfKnown := by simp [State.init]
  single := by simp [State.init]
  reached := by simp [State.init]
  finished := by simp [State.init]
  recHanded := by simp [State.init]
  recTodo := by simp [RecTodo, State.init]

/-! ## Closing and opening -/

theorem Core.close (h : Core s (fd :: held)) : Core (close s fd) held := by
  obtain ⟨f, hf, hget⟩ := h.waiting_of_held (mem_cons_self ..)
  have hledger := h.ledger
  have hone : refs s fd + held.count fd = 0 := by
    have := hledger fd
    rw [due_eq_one ⟨f, hf, hget⟩, count_cons_self] at this
    omega
  have hlive : ∀ n, n ≠ fd → liveCount (s.table.close fd).get s.ovfFds n =
      liveCount s.table.get s.ovfFds n := fun n hn =>
    liveCount_congr (s.table.get_close_of_ne hn)
  have hlive0 : liveCount (s.table.close fd).get s.ovfFds fd = 0 :=
    liveCount_eq_zero_of_none (s.table.get_close_self fd)
  have hnot : f ∉ closedFiles s := fun hc => h.gone f hc fd hget
  have hclosed : closedFiles (FdClose.close s fd) = closedFiles s ++ [f] := by
    simp [closedFiles, FdClose.close, hget]
  refine { h with ledger := ?_, inj := ?_, fresh := ?_, closesOk := ?_, once := ?_, gone := ?_,
                  accounted := ?_, limit := h.limit }
  · intro n
    by_cases hn : n = fd
    · subst hn
      have hdue : due (FdClose.close s n) n = 0 := by
        apply due_eq_zero
        rintro ⟨g, -, hg⟩
        simp [FdClose.close] at hg
      have hrec : recCount (FdClose.close s n) n = 0 := by
        simp [recCount, FdClose.close, hlive0]
      simp only [refs, hrec, hdue] at hone ⊢
      simp only [FdClose.close]
      omega
    · have hdue : due (FdClose.close s fd) n = due s n :=
        due_congr (s.table.get_close_of_ne hn) rfl
      have hrec : recCount (FdClose.close s fd) n = recCount s n := by
        simp [recCount, FdClose.close, hlive n hn]
      have := hledger n
      rw [count_cons_of_ne (Ne.symm hn)] at this
      simp only [refs, hrec, hdue] at this ⊢
      exact this
  · intro n n' g hn hn'
    exact h.inj n n' g (FdTable.get_of_get_close hn).1 (FdTable.get_of_get_close hn').1
  · intro n g hn
    exact h.fresh n g (FdTable.get_of_get_close hn).1
  · intro c hc
    rcases mem_append.mp hc with hc | hc
    · exact h.closesOk c hc
    · rw [mem_singleton.mp hc]
      exact ⟨f, hf, hget⟩
  · rw [hclosed]
    exact h.once.append (nodup_singleton f) (by simpa using hnot)
  · rw [hclosed]
    intro g hg n hn
    obtain ⟨hn, hne⟩ := FdTable.get_of_get_close hn
    rcases mem_append.mp hg with hg | hg
    · exact h.gone g hg n hn
    · rw [mem_singleton.mp hg] at hn
      exact hne (h.inj n fd f hn hget)
  · rw [hclosed]
    intro g hg
    by_cases hgf : g = f
    · exact .inl (by simp [hgf])
    · rcases h.accounted g hg with hc | ⟨n, hn⟩
      · exact .inl (mem_append_left _ hc)
      · have hne : n ≠ fd := by
          rintro rfl
          rw [hget] at hn
          exact hgf (Option.some.inj hn).symm
        exact .inr ⟨n, (s.table.get_close_of_ne hne).trans hn⟩

theorem Core.not_in_todo (h : Core s (fd :: held)) {p : Proc} (hp : p ∈ s.procs) : p.todo.count fd = 0 := by
  have hle := count_todo_le hp fd
  have hdue := due_le_one s fd
  have := h.ledger fd
  rw [count_cons_self] at this
  simp only [refs] at this
  omega

theorem RecTodo.close (hr : RecTodo s)
    (hnot : ∀ p ∈ s.procs, s.ovf = some p.pid → p.todo.count fd = 0) : RecTodo (close s fd) := by
  intro p hp hovf n
  show p.todo.count n = liveCount (s.table.close fd).get s.ovfFds n
  by_cases hn : n = fd
  · subst hn
    rw [liveCount_eq_zero_of_none (s.table.get_close_self n)]
    exact hnot p hp hovf
  · rw [liveCount_congr (s.table.get_close_of_ne hn)]
    exact hr p hp hovf n

theorem Inv.close (h : Inv s (fd :: held)) : Inv (FdClose.close s fd) held where
  toCore := h.toCore.close
  recTodo := h.recTodo.close (fun _ hp _ => h.toCore.not_in_todo hp)

theorem Core.liveCount_alloc (h : Core s held) {t : FdTable Nat} (halloc : s.table.alloc s.nextFile = some (fd, t))
    (n : Int) : liveCount t.get s.ovfFds n = liveCount s.table.get s.ovfFds n := by
  obtain ⟨hfree, -, -, hget⟩ := FdTable.alloc_spec halloc
  by_cases hn : n = fd
  · subst hn
    rw [liveCount_eq_zero_of_none hfree, liveCount, countP_eq_zero]
    intro r hr hr'
    obtain ⟨g, hg, hrg⟩ := h.recHanded r hr
    simp only [decide_eq_true_eq] at hr'
    rw [hget n, if_pos rfl, hrg] at hr'
    exact absurd (h.handedLt g hg) (by have := Option.some.inj hr'.2.2; omega)
  · exact liveCount_congr (by simp [hget n, hn])

theorem Inv.openFd (h : Inv s held) : Inv (openFd s) held := by
  unfold FdClose.openFd
  split
  · exact h
  case h_2 fd t halloc =>
  obtain ⟨hfree, -, hlim, hget⟩ := FdTable.alloc_spec halloc
  have hother : ∀ n, n ≠ fd → t.get n = s.table.get n := by
    intro n hn
    simp [hget n, hn]
  have hself : t.get fd = some s.nextFile := by simp [hget fd]
  have hlive := h.liveCount_alloc halloc
  refine { h with ledger := ?_, limit := hlim.trans h.limit, inj := ?_, fresh := ?_, handedLt := ?_,
                  gone := ?_, accounted := ?_, recTodo := ?_ }
  · intro n
    have hdue : due { s with table := t, nextFile := s.nextFile + 1 } n = due s n := by
      by_cases hn : n = fd
      · subst hn
        rw [due_eq_zero, due_eq_zero]
        · rintro ⟨f, -, hf⟩
          rw [hfree] at hf
          cases hf
        · rintro ⟨f, hf, hf'⟩
          rw [show t.get n = some s.nextFile from hself] at hf'
          have := h.handedLt f hf
          have := Option.some.inj hf'
          omega
      · exact due_congr (hother n hn) rfl
    rw [hdue]
    simpa [refs, recCount, hlive] using h.ledger n
  · intro n n' f hn hn'
    by_cases h1 : n = fd <;> by_cases h2 : n' = fd
    · rw [h1, h2]
    · subst h1
      have := h.fresh n' f ((hother n' h2).symm.trans hn')
      rw [hself] at hn
      have := Option.some.inj hn
      omega
    · subst h2
      have := h.fresh n f ((hother n h1).symm.trans hn)
      rw [hself] at hn'
      have := Option.some.inj hn'
      omega
    · exact h.inj n n' f ((hother n h1).symm.trans hn) ((hother n' h2).symm.trans hn')
  · intro n f hn
    by_cases h1 : n = fd
    · subst h1
      rw [hself] at hn
      have := Option.some.inj hn
      show f < s.nextFile + 1
      omega
    · exact Nat.lt_succ_of_lt (h.fresh n f ((hother n h1).symm.trans hn))
  · exact fun f hf => Nat.lt_succ_of_lt (h.handedLt f hf)
  · intro f hf n hn
    by_cases h1 : n = fd
    · subst h1
      obtain ⟨c, hc, hcf⟩ := mem_filterMap.mp hf
      obtain ⟨g, hg, hcg⟩ := h.closesOk c hc
      rw [hself] at hn
      have h2 := Option.some.inj hn
      rw [hcf] at hcg
      have h3 := Option.some.inj hcg
      have := h.handedLt g hg
      omega
    · exact h.gone f hf n ((hother n h1).symm.trans hn)
  · intro f hf
    rcases h.accounted f hf with hc | ⟨n, hn⟩
    · exact .inl hc
    · have hne : n ≠ fd := by
        rintro rfl
        rw [hfree] at hn
        cases hn
      exact .inr ⟨n, (hother n hne).trans hn⟩
  · intro p hp hovf n
    exact (h.recTodo p hp hovf n).trans (hlive n).symm

/-! ## The moves of a closer -/

/-- One closer changes: what it gives up of its script is now in hand.  `hflag`
is the only promise the new flags have to keep. -/
theorem Core.updProc {pid : Nat} {p : Proc} {f : Proc → Proc} (h : Core s held) (given : List Int)
    (hp : lookup Proc.pid pid s.procs = some p) (hpid : ∀ q, (f q).pid = q.pid)
    (htodo : p.todo = given ++ (f p).todo)
    (hreached : s.ovf ≠ some pid → ((f p).inClose = true ∨ (f p).exited = true ∨ (f p).killed = true) → (f p).todo = [])
    (hfinished : (f p).exited = true → (f p).killed = false → (f p).todo = []) :
    Core (updProc s pid f) (given ++ held) := by
  have hmem := mem_of_lookup hp
  have hkey := key_of_lookup hp
  -- a closer of the new list is an unchanged one or `f p`
  have hcases : ∀ q ∈ (FdClose.updProc s pid f).procs, q = f p ∨ (q ∈ s.procs ∧ q.pid ≠ pid) := by
    intro q hq
    obtain ⟨r, hr, rfl⟩ := mem_update.mp hq
    by_cases hrp : r.pid = pid
    · left
      have : r = p := inj_on_of_nodup_map h.pids hr hmem (hrp.trans hkey.symm)
      rw [if_pos hrp, this]
    · right
      rw [if_neg hrp]
      exact ⟨hr, hrp⟩
  have hmap : (FdClose.updProc s pid f).procs.map Proc.pid = s.procs.map Proc.pid :=
    map_update hpid
  have hfp : (f p).pid = pid := (hpid p).trans hkey
  refine { h with ledger := ?_, pids := ?_, pidLt := ?_, known := ?_, ovfKnown := ?_, single := ?_,
                  reached := ?_, finished := ?_ }
  · intro n
    have hsum := sum_update (f := f) h.pids (fun q : Proc => q.todo.count n) hp
    have hcount : p.todo.count n = given.count n + (f p).todo.count n := by
      rw [htodo, count_append]
    have hdue : due (FdClose.updProc s pid f) n = due s n := due_congr rfl rfl
    have hrec : recCount (FdClose.updProc s pid f) n = recCount s n := rfl
    have := h.ledger n
    rw [hdue]
    simp only [refs, hrec, count_append] at this hsum ⊢
    simp only [FdClose.updProc]
    omega
  · rw [hmap]
    exact h.pids
  · intro q hq
    rcases hcases q hq with rfl | ⟨hq, -⟩
    · rw [hfp, ← hkey]
      exact h.pidLt p hmem
    · exact h.pidLt q hq
  · rw [hmap]
    exact h.known
  · rw [hmap]
    exact h.ovfKnown
  · intro q hq hne
    rcases hcases q hq with rfl | ⟨hq, -⟩
    · have := h.single p hmem (by rwa [hkey, ← hfp])
      rw [htodo, length_append] at this
      omega
    · exact h.single q hq hne
  · intro q hq hne hflag
    rcases hcases q hq with rfl | ⟨hq, -⟩
    · exact hreached (by rwa [← hfp]) hflag
    · exact h.reached q hq hne hflag
  · intro q hq hexit hkill
    rcases hcases q hq with rfl | ⟨hq, -⟩
    · exact hfinished hexit hkill
    · exact h.finished q hq hexit hkill

theorem Inv.updFlags {pid : Nat} {p : Proc} {f : Proc → Proc} (h : Inv s held)
    (hp : lookup Proc.pid pid s.procs = some p) (hpid : ∀ q, (f q).pid = q.pid)
    (htodo : ∀ q, (f q).todo = q.todo)
    (hreached : s.ovf ≠ some pid → (f p).inClose = true ∨ (f p).exited = true ∨ (f p).killed = true → p.todo = [])
    (hfinished : (f p).exited = true → (f p).killed = false → p.todo = []) :
    Inv (updProc s pid f) held where
  toCore := by
    refine h.toCore.updProc [] hp hpid ?_ ?_ ?_
    · exact (htodo p).symm
    · rw [htodo]
      exact hreached
    · rw [htodo]
      exact hfinished
  recTodo := by
    intro q hq hovf n
    obtain ⟨r, hr, rfl⟩ := mem_update.mp hq
    have hsame : (if r.pid = pid then f r else r).todo = r.todo := by
      split
      · exact htodo r
      · rfl
    have hrpid : (if r.pid = pid then f r else r).pid = r.pid := by
      split
      · exact hpid r
      · rfl
    rw [hsame]
    exact h.recTodo r hr (by rw [← hrpid]; exact hovf) n

theorem Inv.move (h : Inv s held) (pid : Nat) : Inv (move s pid) held := by
  unfold FdClose.move
  split
  · exact h
  case h_2 p hp =>
  have hmem := mem_of_lookup hp
  have hkey := key_of_lookup hp
  split_ifs with hexit hkill hclose
  · exact h
  · refine h.updFlags hp (fun _ => rfl) (fun _ => rfl) ?_ ?_
    · intro hne _
      exact h.reached p hmem (by rwa [hkey]) (.inr (.inr hkill))
    · intro _ hk
      exact absurd hkill (by simp [show p.killed = false from hk])
  · refine h.updFlags hp (fun _ => rfl) (fun _ => rfl) ?_ ?_
    · intro hne _
      exact h.reached p hmem (by rwa [hkey]) (.inl hclose)
    · intro he
      exact absurd he hexit
  split
  case h_1 htodo =>
    exact h.updFlags hp (fun _ => rfl) (fun _ => rfl) (fun _ _ => htodo) (fun _ _ => htodo)
  case h_2 fd rest htodo =>
  have hcore : Core (updProc s pid fun p => { p with todo := rest, inClose := true }) (fd :: held) := by
    refine h.toCore.updProc [fd] hp (fun _ => rfl) htodo ?_ ?_
    · intro hne _
      have := h.single p hmem (by rwa [hkey])
      rw [htodo, length_cons] at this
      exact length_eq_zero_iff.mp (by show rest.length = 0; omega)
    · intro he
      exact absurd he hexit
  refine ⟨hcore.close, ?_⟩
  intro q hq hovf n
  show q.todo.count n = liveCount (s.table.close fd).get s.ovfFds n
  by_cases hn : n = fd
  · subst hn
    rw [liveCount_eq_zero_of_none (s.table.get_close_self n)]
    exact hcore.not_in_todo hq
  · rw [liveCount_congr (s.table.get_close_of_ne hn)]
    obtain ⟨r, hr, rfl⟩ := mem_update.mp hq
    by_cases hrp : r.pid = pid
    · have hrp' : r = p := inj_on_of_nodup_map h.pids hr hmem (hrp.trans hkey.symm)
      rw [if_pos hrp] at hovf ⊢
      have := h.recTodo r hr hovf n
      rw [hrp', htodo, count_cons_of_ne (Ne.symm hn)] at this
      exact this
    · rw [if_neg hrp] at hovf ⊢
      exact h.recTodo r hr hovf n

/-! ## New closers -/

theorem Core.nextPid_ne_ovf (h : Core s held) : s.ovf ≠ some s.nextPid := by
  intro hovf
  obtain ⟨p, hp, hpid⟩ := mem_map.mp (h.ovfKnown _ hovf)
  have := h.pidLt p hp
  omega

theorem Core.nextPid_not_mem (h : Core s held) : s.nextPid ∉ s.procs.map Proc.pid := by
  intro hmem
  obtain ⟨p, hp, hpid⟩ := mem_map.mp hmem
  have := h.pidLt p hp
  omega

theorem clone_pids (s : State) (todo : List Int) :
    (clone s todo).procs.map Proc.pid = s.procs.map Proc.pid ++ [s.nextPid] := by
  simp [clone]

theorem Core.clone_pids_nodup (h : Core s held) (todo : List Int) : ((clone s todo).procs.map Proc.pid).Nodup := by
  rw [clone_pids]
  exact h.pids.append (nodup_singleton _) (by simpa using h.nextPid_not_mem)

theorem sum_count_clone (s : State) (todo : List Int) (fd : Int) :
    ((clone s todo).procs.map (fun p => p.todo.count fd)).sum =
      (s.procs.map (fun p => p.todo.count fd)).sum + todo.count fd := by
  simp [clone]

theorem mem_clone {todo : List Int} {p : Proc} (hp : p ∈ (clone s todo).procs) : p ∈ s.procs ∨
    p = { pid := s.nextPid, todo := todo, inClose := false, killed := false, exited := false } := by
  simpa [clone] using hp

theorem Core.clone_pidLt (h : Core s held) (todo : List Int) : ∀ p ∈ (clone s todo).procs, p.pid < s.nextPid + 1 := by
  intro p hp
  rcases mem_clone hp with hp | rfl
  · exact Nat.lt_succ_of_lt (h.pidLt p hp)
  · exact Nat.lt_succ_self _

theorem Core.clone_known (h : Core s held) (todo : List Int) (pid uid : Int) :
    ((s.tracked ++ [(⟨s.nextPid, pid, uid⟩ : Track)]).map Track.pid).Perm ((clone s todo).procs.map Proc.pid) := by
  rw [map_append, clone_pids]
  exact h.known.append_right _

theorem Core.clone_finished (h : Core s held) (todo : List Int) :
    ∀ p ∈ (clone s todo).procs, p.exited = true → p.killed = false → p.todo = [] := by
  intro p hp he hk
  rcases mem_clone hp with hp | rfl
  · exact h.finished p hp he hk
  · cases he

theorem Inv.adopt (h : Inv s (fd :: held)) : Inv (track (clone s [fd]) s.nextPid) held := by
  refine { h with ledger := ?_, pids := h.clone_pids_nodup [fd], pidLt := h.clone_pidLt [fd],
                  known := h.clone_known [fd] _ _, ovfKnown := ?_, single := ?_, reached := ?_,
                  finished := h.clone_finished [fd], recTodo := ?_ }
  · intro n
    have hsum := sum_count_clone s [fd] n
    have hdue : due (track (clone s [fd]) s.nextPid) n = due s n := due_congr rfl rfl
    have hrec : recCount (track (clone s [fd]) s.nextPid) n = recCount s n := rfl
    have hcons : (fd :: held).count n = [fd].count n + held.count n := by
      rw [← count_append]; rfl
    have := h.ledger n
    simp only [refs, hrec, hdue] at this ⊢
    simp only [track] at hsum ⊢
    simp only [clone] at hsum ⊢
    omega
  · intro pid hovf
    rw [show (track (clone s [fd]) s.nextPid).procs.map Proc.pid = _ from clone_pids s [fd]]
    exact mem_append_left _ (h.ovfKnown pid hovf)
  · intro p hp hne
    rcases mem_clone hp with hp | rfl
    · exact h.single p hp hne
    · exact le_refl 1
  · intro p hp hne hflag
    rcases mem_clone hp with hp | rfl
    · exact h.reached p hp hne hflag
    · simp at hflag
  · intro p hp hovf n
    rcases mem_clone hp with hp | rfl
    · exact h.recTodo p hp hovf n
    · exact absurd hovf h.nextPid_ne_ovf

theorem Inv.passrights (h : Inv s held) (on : Bool) : Inv (passrights s on) held := by
  unfold FdClose.passrights
  split_ifs
  · exact h
  · exact { h with }
  · exact h

theorem Inv.full (h : Inv s held) : Inv (full s).1 held := by
  unfold FdClose.full
  split
  · exact h
  · exact h.passrights false

theorem Inv.reopen (h : Inv s held) : Inv (reopen s) held := by
  unfold FdClose.reopen
  split
  · exact h.passrights true
  · exact h

theorem Inv.park (h : Inv s (fd :: held)) (pid uid : Int) :
    Inv { s with parkPid := pid, parkUid := uid, parked := s.parked ++ [fd] } held := by
  refine { h with ledger := ?_ }
  intro n
  have hdue : due { s with parkPid := pid, parkUid := uid, parked := s.parked ++ [fd] } n = due s n :=
    due_congr rfl rfl
  have hrec : recCount { s with parkPid := pid, parkUid := uid, parked := s.parked ++ [fd] } n = recCount s n := rfl
  have hcons : (fd :: held).count n = [fd].count n + held.count n := by
    rw [← count_append]; rfl
  have := h.ledger n
  simp only [refs, hrec, hdue, count_append] at this ⊢
  omega

theorem Inv.spawn (h : Inv s (fd :: held)) (ok : Bool) : Inv (spawn s fd ok) held := by
  unfold FdClose.spawn
  split
  · have hfull := h.full
    dsimp only
    split
    · exact hfull.park _ _
    · exact hfull.close
  · split
    · exact h.adopt
    · exact h.close

theorem Inv.spawnAll {fds : List Int} {oks : List Bool} (h : Inv s (fds ++ held)) : Inv (spawnAll s fds oks) held := by
  induction fds generalizing s oks with
  | nil => exact h
  | cons fd fds ih => exact ih (h.spawn _)

/-! ## Handing over, and the overflow closer -/

/-- The record holds nothing back: with no overflow closer, none of its
numbers still names what was parked. -/
def Rest (s : State) : Prop :=
  s.ovf = none → ∀ fd, liveCount s.table.get s.ovfFds fd = 0

theorem Inv.hand {fds : List Int} (h : Inv s []) (hd : fds.Nodup) (hown : ∀ fd ∈ fds, Own s fd) :
    Inv { s with handed := s.handed ++ fds.filterMap s.table.get } fds := by
  have hopen : ∀ fd ∈ fds, ∃ f, s.table.get fd = some f ∧ f ∉ s.handed := by
    intro fd hfd
    have := hown fd hfd
    unfold Own at this
    split at this
    · exact this.elim
    case h_2 f hf => exact ⟨f, hf, this⟩
  refine { h with ledger := ?_, handedLt := ?_, closesOk := ?_, accounted := ?_, recHanded := ?_ }
  · intro n
    have hledger := h.ledger n
    by_cases hn : n ∈ fds
    · obtain ⟨f, hf, hnot⟩ := hopen n hn
      have hdue : due { s with handed := s.handed ++ fds.filterMap s.table.get } n = 1 :=
        due_eq_one ⟨f, mem_append_right _ (mem_filterMap.mpr ⟨n, hn, hf⟩), hf⟩
      have hzero : due s n = 0 := by
        apply due_eq_zero
        rintro ⟨g, hg, hg'⟩
        rw [hf] at hg'
        exact hnot (Option.some.inj hg' ▸ hg)
      rw [hdue, count_eq_one_of_mem hd hn]
      rw [hzero] at hledger
      show refs s n + 1 = 1
      simpa using hledger
    · have hdue : due { s with handed := s.handed ++ fds.filterMap s.table.get } n = due s n := by
        have hiff : Waiting { s with handed := s.handed ++ fds.filterMap s.table.get } n ↔ Waiting s n := by
          constructor
          · rintro ⟨f, hf, hget⟩
            rcases mem_append.mp hf with hf | hf
            · exact ⟨f, hf, hget⟩
            · obtain ⟨fd, hfd, hfd'⟩ := mem_filterMap.mp hf
              exact absurd (h.inj n fd f hget hfd' ▸ hfd) hn
          · rintro ⟨f, hf, hget⟩
            exact ⟨f, mem_append_left _ hf, hget⟩
        simp [due, hiff]
      rw [hdue, count_eq_zero.mpr hn]
      show refs s n + 0 = due s n
      simpa using hledger
  · intro f hf
    rcases mem_append.mp hf with hf | hf
    · exact h.handedLt f hf
    · obtain ⟨fd, -, hfd⟩ := mem_filterMap.mp hf
      exact h.fresh fd f hfd
  · intro c hc
    obtain ⟨f, hf, hcf⟩ := h.closesOk c hc
    exact ⟨f, mem_append_left _ hf, hcf⟩
  · intro f hf
    rcases mem_append.mp hf with hf | hf
    · exact h.accounted f hf
    · obtain ⟨fd, -, hfd⟩ := mem_filterMap.mp hf
      exact .inr ⟨fd, hfd⟩
  · intro r hr
    obtain ⟨f, hf, hrf⟩ := h.recHanded r hr
    exact ⟨f, mem_append_left _ hf, hrf⟩

theorem liveCount_map_get {get : Int → Option Nat} {l : List Int} (h : ∀ fd ∈ l, (get fd).isSome)
    (n : Int) : liveCount get (l.map (fun fd => (fd, get fd))) n = l.count n := by
  rw [liveCount, countP_map, count_eq_countP]
  apply countP_congr
  intro fd hfd
  have := h fd hfd
  simp only [Function.comp, decide_eq_true_eq, beq_iff_eq]
  constructor
  · exact fun h => h.1
  · rintro rfl
    exact ⟨rfl, this, rfl⟩

theorem Core.parked_open (h : Core s held) : ∀ fd ∈ s.parked, ∃ f ∈ s.handed, s.table.get fd = some f := by
  intro fd hfd
  have := count_pos_iff.mpr hfd
  exact h.waiting (by simp only [refs]; omega)

/-- `fdclose_flush` moves the parked list into a new closer's script.  The
record it overwrites must hold nothing back. -/
theorem Inv.flush (h : Inv s held) (hrest : Rest s) (ok : Bool) : Inv (flush s ok) held := by
  unfold FdClose.flush
  split
  · exact h
  split
  · exact h
  case isFalse hgo _ =>
  rw [not_or] at hgo
  have hnone : s.ovf = none := by simpa using hgo.1
  have hopen : ∀ fd ∈ s.parked, (s.table.get fd).isSome := by
    intro fd hfd
    obtain ⟨f, -, hf⟩ := h.parked_open fd hfd
    rw [hf]
    rfl
  refine { h with ledger := ?_, pids := h.clone_pids_nodup s.parked, pidLt := h.clone_pidLt s.parked,
                  known := h.clone_known s.parked _ _, ovfKnown := ?_, single := ?_, reached := ?_,
                  finished := h.clone_finished s.parked, recHanded := ?_, recTodo := ?_ }
  · intro n
    have hsum := sum_count_clone s s.parked n
    have hrec : recCount s n = 0 := by
      simp [recCount, hnone, hrest hnone n]
    have hledger := h.ledger n
    simp only [refs, hrec] at hledger
    show ((clone s s.parked).procs.map (fun p => p.todo.count n)).sum + 0 + 0 + held.count n = due s n
    omega
  · intro pid hovf
    rw [clone_pids, ← Option.some.inj hovf]
    simp
  · intro p hp hne
    rcases mem_clone hp with hp | rfl
    · exact h.single p hp (by simp [hnone])
    · exact absurd rfl hne
  · intro p hp hne hflag
    rcases mem_clone hp with hp | rfl
    · exact h.reached p hp (by simp [hnone]) hflag
    · exact absurd rfl hne
  · intro r hr
    obtain ⟨fd, hfd, rfl⟩ := mem_map.mp hr
    exact h.parked_open fd hfd
  · intro p hp hovf n
    rcases mem_clone hp with hp | rfl
    · have := h.pidLt p hp
      have := Option.some.inj hovf
      omega
    · exact (liveCount_map_get hopen n).symm

theorem Rest.flush (h : Rest s) (ok : Bool) : Rest (flush s ok) := by
  unfold FdClose.flush
  split
  · exact h
  split
  · exact h
  · exact fun hnone => nomatch hnone

end SchemaInit.FdClose
