/-
# `SchemaInit.FdClose.Quiesce` — waiting for the closers, and going on

`fdclose_quiesce` waits until every closer has exited or sits in `close()`,
kills them all and collects them.  A closer with one descriptor that sits in
`close()` has already done its job, so killing it loses nothing; the overflow
closer may have descriptors left, and burying it turns them into the live part
of the record (`Inv.bury`).  `fdclose_resume` parks that part again.

The loops are followed by their own recursion.  What the first loop
establishes is `Settled`: every closer but the overflow closer has reached the
end of its script, which is what `kill` needs.
-/
import SchemaInit.FdClose.Ledger

namespace SchemaInit.FdClose

open FdClose List KeyedList

variable {s : State} {held : List Int} {fd : Int}

/-! ## Burying a closer -/

theorem Core.lookup_tracked (h : Core s held) {i : Nat} {t : Track} (ht : s.tracked[i]? = some t) :
    ∃ p, lookup Proc.pid t.pid s.procs = some p := by
  apply exists_lookup
  exact h.known.subset (mem_map_of_mem (mem_of_getElem? ht))

theorem Core.bury_known (h : Core s held) {i : Nat} {t : Track} (ht : s.tracked[i]? = some t) :
    ((bury s i t.pid).tracked.map Track.pid).Perm ((bury s i t.pid).procs.map Proc.pid) := by
  obtain ⟨hi, hti⟩ := List.getElem?_eq_some_iff.mp ht
  obtain ⟨p, hp⟩ := h.lookup_tracked ht
  have htracked : (t.pid :: (swapRemove s.tracked i).map Track.pid).Perm (s.tracked.map Track.pid) := by
    have := (swapRemove_perm hi).map Track.pid
    rwa [List.map_cons, hti] at this
  have hprocs : (t.pid :: (remove Proc.pid t.pid s.procs).map Proc.pid).Perm (s.procs.map Proc.pid) := by
    have := (cons_remove_perm h.pids hp).map Proc.pid
    rwa [List.map_cons, key_of_lookup hp] at this
  exact (htracked.trans (h.known.trans hprocs.symm)).cons_inv

theorem bury_ovf {i : Nat} {t : Track} (ht : s.tracked[i]? = some t) :
    (bury s i t.pid).ovf = if s.ovf = some t.pid then none else s.ovf := by
  simp [bury, untrack, ht, eq_comm]

theorem Inv.bury (h : Inv s []) {i : Nat} {t : Track} (ht : s.tracked[i]? = some t)
    (hw : waited s t.pid = true) : Inv (bury s i t.pid) [] := by
  obtain ⟨p, hp⟩ := h.lookup_tracked ht
  have hmem := mem_of_lookup hp
  have hkey : p.pid = t.pid := key_of_lookup hp
  have hexit : p.exited = true := by simpa [waited, hp] using hw
  have hovf := bury_ovf ht
  have hstay : ∀ q ∈ (FdClose.bury s i t.pid).procs, q ∈ s.procs ∧ q.pid ≠ t.pid :=
    fun q hq => mem_remove.mp hq
  -- a closer that stays is the overflow closer after iff it was before
  have hsame : ∀ q ∈ (FdClose.bury s i t.pid).procs,
      ((FdClose.bury s i t.pid).ovf = some q.pid ↔ s.ovf = some q.pid) := by
    intro q hq
    rw [hovf]
    split
    case isTrue ho =>
      simp only [reduceCtorEq, false_iff, ho, Option.some.injEq]
      exact fun hpid => (hstay q hq).2 hpid.symm
    · rfl
  refine { h with ledger := ?_, pids := ?_, pidLt := ?_, known := h.bury_known ht, ovfKnown := ?_,
                  single := ?_, reached := ?_, finished := ?_, recTodo := ?_ }
  · intro n
    have hsum := sum_remove h.pids (fun q : Proc => q.todo.count n) hp
    have hledger := h.ledger n
    have hdue : due (FdClose.bury s i t.pid) n = due s n := due_congr rfl rfl
    have hrec : recCount (FdClose.bury s i t.pid) n = recCount s n + p.todo.count n := by
      have hlive : liveCount (FdClose.bury s i t.pid).table.get (FdClose.bury s i t.pid).ovfFds n =
        liveCount s.table.get s.ovfFds n := rfl
      by_cases ho : s.ovf = some t.pid
      · have hcount := h.recTodo p hmem (by rw [hkey]; exact ho) n
        rw [if_pos ho] at hovf
        simp [recCount, hovf, ho, hlive, hcount]
      · have hnil := h.reached p hmem (by rwa [hkey]) (.inr (.inl hexit))
        rw [if_neg ho] at hovf
        simp [recCount, hovf, hlive, hnil]
    rw [hdue]
    simp only [refs, hrec] at hledger ⊢
    show (List.map _ (remove Proc.pid t.pid s.procs)).sum + s.parked.count n + _ + _ = _
    omega
  · exact nodup_map_remove h.pids
  · exact fun q hq => h.pidLt q (hstay q hq).1
  · intro pid hpid
    rw [hovf] at hpid
    split at hpid
    · cases hpid
    case isFalse ho =>
      obtain ⟨q, hq, hqpid⟩ := mem_map.mp (h.ovfKnown pid hpid)
      refine mem_map.mpr ⟨q, mem_remove.mpr ⟨hq, ?_⟩, hqpid⟩
      rintro hq'
      exact ho (by rw [hpid, ← hqpid, hq'])
  · exact fun q hq hne => h.single q (hstay q hq).1 (fun ho => hne ((hsame q hq).mpr ho))
  · exact fun q hq hne => h.reached q (hstay q hq).1 (fun ho => hne ((hsame q hq).mpr ho))
  · exact fun q hq => h.finished q (hstay q hq).1
  · exact fun q hq ho => h.recTodo q (hstay q hq).1 ((hsame q hq).mp ho)

def OvfWhole (s : State) : Prop :=
  ∀ p ∈ s.procs, s.ovf = some p.pid → p.killed = true → p.todo = []

theorem Inv.bury_rest (h : Inv s []) {i : Nat} {t : Track} (ht : s.tracked[i]? = some t)
    (hw : waited s t.pid = true) (hrest : Rest s) (hwhole : OvfWhole s) : Rest (FdClose.bury s i t.pid) := by
  obtain ⟨p, hp⟩ := h.lookup_tracked ht
  have hmem := mem_of_lookup hp
  have hkey : p.pid = t.pid := key_of_lookup hp
  have hexit : p.exited = true := by simpa [waited, hp] using hw
  intro hnone n
  show liveCount s.table.get s.ovfFds n = 0
  rw [bury_ovf ht] at hnone
  split at hnone
  case isTrue ho =>
    have ho' : s.ovf = some p.pid := by rw [hkey]; exact ho
    have hnil : p.todo = [] := by
      cases hk : p.killed with
      | false => exact h.finished p hmem hexit hk
      | true => exact hwhole p hmem ho' hk
    rw [← h.recTodo p hmem ho' n, hnil]
    rfl
  · exact hrest hnone n

/-! ## What a move can do -/

theorem move_cases (s : State) (pid : Nat) : move s pid = s ∨
    (∃ f : Proc → Proc, (∀ q, (f q).pid = q.pid ∧ (f q).killed = q.killed ∧ (f q).todo = q.todo) ∧
      move s pid = updProc s pid f) ∨
    (∃ p fd rest, lookup Proc.pid pid s.procs = some p ∧ p.todo = fd :: rest ∧
      move s pid = close (updProc s pid fun p => { p with todo := rest, inClose := true }) fd) := by
  unfold move
  split
  · exact .inl rfl
  case h_2 p hp =>
  split_ifs
  · exact .inl rfl
  · exact .inr (.inl ⟨fun p => { p with exited := true }, fun _ => ⟨rfl, rfl, rfl⟩, rfl⟩)
  · exact .inr (.inl ⟨fun p => { p with inClose := false }, fun _ => ⟨rfl, rfl, rfl⟩, rfl⟩)
  split
  · exact .inr (.inl ⟨fun p => { p with exited := true }, fun _ => ⟨rfl, rfl, rfl⟩, rfl⟩)
  case h_2 fd rest htodo => exact .inr (.inr ⟨p, fd, rest, hp, htodo, rfl⟩)

@[simp] theorem move_keeps (s : State) (pid : Nat) :
    (move s pid).tracked = s.tracked ∧ (move s pid).ovf = s.ovf ∧ (move s pid).ovfFds = s.ovfFds := by
  obtain h | ⟨f, -, h⟩ | ⟨p, fd, rest, -, -, h⟩ := move_cases s pid <;> rw [h] <;> exact ⟨rfl, rfl, rfl⟩

theorem Core.mem_move (h : Core s held) {pid : Nat} {q : Proc} (hq : q ∈ (move s pid).procs) :
    ∃ r ∈ s.procs, r.pid = q.pid ∧ r.killed = q.killed ∧ q.todo ⊆ r.todo := by
  obtain hm | ⟨f, hf, hm⟩ | ⟨p, fd, rest, hp, htodo, hm⟩ := move_cases s pid <;> rw [hm] at hq
  · exact ⟨q, hq, rfl, rfl, fun _ hx => hx⟩
  · obtain ⟨r, hr, rfl⟩ := mem_update.mp hq
    refine ⟨r, hr, ?_⟩
    split
    · obtain ⟨h1, h2, h3⟩ := hf r
      exact ⟨h1.symm, h2.symm, h3 ▸ fun _ hx => hx⟩
    · exact ⟨rfl, rfl, fun _ hx => hx⟩
  · obtain ⟨r, hr, rfl⟩ := mem_update.mp hq
    refine ⟨r, hr, ?_⟩
    split
    case isTrue hpid =>
      have hrp : r = p := inj_on_of_nodup_map h.pids hr (mem_of_lookup hp) (hpid.trans (key_of_lookup hp).symm)
      refine ⟨rfl, rfl, ?_⟩
      rw [hrp, htodo]
      exact subset_cons_self fd rest
    · exact ⟨rfl, rfl, fun _ hx => hx⟩

theorem get_move (s : State) (pid : Nat) (n : Int) :
    (move s pid).table.get n = none ∨ (move s pid).table.get n = s.table.get n := by
  obtain hm | ⟨f, -, hm⟩ | ⟨p, fd, rest, -, -, hm⟩ := move_cases s pid <;> rw [hm]
  · exact .inr rfl
  · exact .inr rfl
  · exact s.table.get_close_or fd n

theorem Rest.of_shrunk {s' : State} (h : Rest s) (hovf : s'.ovf = s.ovf) (hrec : s'.ovfFds = s.ovfFds)
    (hget : ∀ n, s'.table.get n = none ∨ s'.table.get n = s.table.get n) : Rest s' := by
  intro hnone n
  rw [hovf] at hnone
  rw [hrec]
  rcases hget n with hn | hn
  · exact liveCount_eq_zero_of_none hn
  · rw [liveCount_congr hn]
    exact h hnone n

theorem Rest.move (h : Rest s) (pid : Nat) : Rest (move s pid) :=
  h.of_shrunk (move_keeps s pid).2.1 (move_keeps s pid).2.2 (get_move s pid)

/-! ## What holds while PID 1 waits -/

def Unreopened (s : State) : Prop :=
  ∀ r ∈ s.ovfFds, s.table.get r.1 = none ∨ s.table.get r.1 = r.2

instance (s : State) : Decidable (Unreopened s) :=
  inferInstanceAs (Decidable (∀ r ∈ s.ovfFds, s.table.get r.1 = none ∨ s.table.get r.1 = r.2))

structure Kept (P : State → Prop) : Prop where
  move : ∀ {s : State} (pid : Nat), P s → P (move s pid)
  bury : ∀ {s : State} {i : Nat} {t : Track}, P s → s.tracked[i]? = some t →
    waited s t.pid = true → P (FdClose.bury s i t.pid)

theorem Unreopened.move (h : Unreopened s) (pid : Nat) : Unreopened (FdClose.move s pid) := by
  intro r hr
  rw [(move_keeps _ _).2.2] at hr
  rcases get_move s pid r.1 with hn | hn
  · exact .inl hn
  · rw [hn]
    exact h r hr

theorem kept_inv : Kept (fun s => Inv s []) :=
  ⟨fun pid h => h.move pid, fun h ht hw => h.bury ht hw⟩

theorem kept_unreopened : Kept (fun s => Inv s [] ∧ Unreopened s) where
  move pid h := ⟨h.1.move pid, h.2.move pid⟩
  bury h ht hw := ⟨h.1.bury ht hw, h.2⟩

structure Calm (s : State) : Prop where
  inv : Inv s []
  unreopened : Unreopened s
  rest : Rest s
  whole : OvfWhole s

theorem kept_calm : Kept Calm where
  move pid h :=
    { inv := h.inv.move pid
      unreopened := h.unreopened.move pid
      rest := h.rest.move pid
      whole := by
        intro q hq hovf hkill
        obtain ⟨r, hr, hpid, hk, hsub⟩ := h.inv.mem_move hq
        rw [(move_keeps _ _).2.1] at hovf
        have := h.whole r hr (by rw [hpid]; exact hovf) (hk.trans hkill)
        rw [this] at hsub
        exact subset_nil.mp hsub }
  bury h ht hw :=
    { inv := h.inv.bury ht hw
      unreopened := h.unreopened
      rest := h.inv.bury_rest ht hw h.rest h.whole
      whole := by
        intro q hq hovf hkill
        have hq' := mem_remove.mp hq
        rw [bury_ovf ht] at hovf
        split at hovf
        · cases hovf
        · exact h.whole q hq'.1 hovf hkill }

section Loops

variable {P : State → Prop} (kept : Kept P)
include kept

theorem Kept.interleave (h : P s) (script : List (List Nat)) : P (interleave s script).1 := by
  show P ((script.headD []).foldl FdClose.move s)
  induction script.headD [] generalizing s with
  | nil => exact h
  | cons pid pids ih => exact ih (kept.move pid h)

theorem Kept.scan (fuel : Nat) (h : P s) (script : List (List Nat)) (i : Nat) (pending : Bool) :
    P (scan fuel s script i pending).1 := by
  induction fuel generalizing s script i pending with
  | zero => exact h
  | succ fuel ih =>
    have hmid := kept.interleave h script
    simp only [scan]
    split
    · exact hmid
    case h_2 t ht =>
      split
      case isTrue hw => exact ih (kept.bury hmid ht hw) _ _ _
      · exact ih hmid ..

theorem Kept.settle (ticks : Nat) (h : P s) (script : List (List Nat)) : P (settle ticks s script).1 := by
  induction ticks generalizing s script with
  | zero => exact h
  | succ ticks ih =>
    have hscan := kept.scan s.tracked.length h script 0 false
    simp only [settle]
    split
    · exact ih hscan _
    · exact hscan

theorem Kept.collect (fuel : Nat) (h : P s) (script : List (List Nat)) (i : Nat) : P (collect fuel s script i).1 := by
  induction fuel generalizing s script i with
  | zero => exact h
  | succ fuel ih =>
    have hmid := kept.interleave h script
    simp only [collect]
    split
    · exact hmid
    case h_2 t ht =>
      split
      case isTrue hw => exact ih (kept.bury hmid ht hw) _ _
      · exact ih hmid _ _

theorem Kept.collectAll (ticks : Nat) (h : P s) (script : List (List Nat)) : P (collectAll ticks s script) := by
  induction ticks generalizing s script with
  | zero => exact h
  | succ ticks ih =>
    simp only [collectAll]
    split
    · exact h
    · exact ih (kept.collect _ h script 0) _

end Loops

/-! ## The first loop finds every closer in `close()` -/

def Reached (s : State) (pid : Nat) : Prop :=
  s.ovf ≠ some pid → ∀ p ∈ s.procs, p.pid = pid → p.todo = []

theorem Reached.move (h : Inv s []) {pid : Nat} (hr : Reached s pid) (pid' : Nat) : Reached (move s pid') pid := by
  intro hne q hq hpid
  obtain ⟨r, hmem, hrq, -, hsub⟩ := h.mem_move hq
  rw [(move_keeps _ _).2.1] at hne
  rw [hr hne r hmem (hrq.trans hpid)] at hsub
  exact subset_nil.mp hsub

theorem Reached.interleave (h : Inv s []) {pid : Nat} (hr : Reached s pid) (script : List (List Nat)) :
    Reached (interleave s script).1 pid := by
  show Reached ((script.headD []).foldl FdClose.move s) pid
  induction script.headD [] generalizing s with
  | nil => exact hr
  | cons pid' pids ih => exact ih (h.move pid') (hr.move h pid')

theorem Reached.bury {i : Nat} {t : Track} (ht : s.tracked[i]? = some t) {pid : Nat}
    (hr : Reached s pid) : Reached (bury s i t.pid) pid := by
  intro hne q hq hpid
  obtain ⟨hq, hqt⟩ := mem_remove.mp hq
  refine hr ?_ q hq hpid
  intro hovf
  rw [bury_ovf ht, if_neg] at hne
  · exact hne hovf
  · rw [hovf, Option.some.injEq, ← hpid]
    exact hqt

theorem interleave_tracked (s : State) (script : List (List Nat)) : (interleave s script).1.tracked = s.tracked := by
  show ((script.headD []).foldl move s).tracked = s.tracked
  induction script.headD [] generalizing s with
  | nil => rfl
  | cons pid pids ih => exact (ih _).trans (move_keeps s pid).1

/-- A tick that saw nobody pending has seen every closer in `close()`: the
induction is on the fuel, and the closers before `i` have been seen. -/
theorem Inv.scan_reached (fuel : Nat) (h : Inv s []) (script : List (List Nat)) (i : Nat)
    (pending : Bool) (hfuel : s.tracked.length ≤ fuel + i)
    (hseen : pending = false → ∀ t ∈ s.tracked.take i, Reached s t.pid)
    (hend : (scan fuel s script i pending).2.2 = false) :
    ∀ t ∈ (scan fuel s script i pending).1.tracked, Reached (scan fuel s script i pending).1 t.pid := by
  induction fuel generalizing s script i pending with
  | zero =>
    intro t ht
    refine hseen hend t ?_
    rwa [List.take_of_length_le (by omega)]
  | succ fuel ih =>
    have hmid : Inv (interleave s script).1 [] := kept_inv.interleave h script
    have htr := interleave_tracked s script
    have hseen' : pending = false → ∀ t ∈ (interleave s script).1.tracked.take i,
        Reached (interleave s script).1 t.pid := by
      intro hp t ht
      rw [htr] at ht
      exact (hseen hp t ht).interleave h script
    simp only [scan] at hend ⊢
    split at hend
    case h_1 hnone =>
      intro t ht
      refine hseen' hend t ?_
      rwa [List.take_of_length_le (List.getElem?_eq_none_iff.mp hnone)]
    case h_2 t ht =>
    obtain ⟨hi, hti⟩ := List.getElem?_eq_some_iff.mp ht
    split at hend
    case isTrue hw =>
      rw [if_pos hw]
      refine ih (hmid.bury ht hw) _ _ _ ?_ ?_ hend
      · have := length_swapRemove hi
        rw [htr] at this
        show (swapRemove (interleave s script).1.tracked i).length ≤ fuel + i
        rw [htr]
        omega
      · intro hp t' ht'
        have htake : (FdClose.bury (interleave s script).1 i t.pid).tracked.take i =
          (interleave s script).1.tracked.take i := take_swapRemove hi
        rw [htake] at ht'
        exact (hseen' hp t' ht').bury ht
    case isFalse hw =>
      rw [if_neg hw]
      refine ih hmid _ _ _ (by rw [htr]; omega) ?_ hend
      intro hp t' ht'
      rw [Bool.or_eq_false_iff] at hp
      rw [List.take_add_one, ht] at ht'
      rcases List.mem_append.mp ht' with ht' | ht'
      · exact hseen' hp.1 t' ht'
      · -- the closer just looked at is in `close()`
        simp only [Option.toList_some, List.mem_singleton] at ht'
        subst ht'
        intro hne p hp' hpid
        have hlook := lookup_of_mem hmid.pids hp'
        rw [hpid] at hlook
        have hclose : p.inClose = true := by simpa [inClose, hlook] using hp.2
        exact hmid.reached p hp' (by rwa [hpid]) (.inl hclose)

theorem Inv.settle_reached (ticks : Nat) (h : Inv s []) (script : List (List Nat))
    (hend : (settle ticks s script).2.2 = true) :
    ∀ t ∈ (settle ticks s script).1.tracked, Reached (settle ticks s script).1 t.pid := by
  induction ticks generalizing s script with
  | zero => cases hend
  | succ ticks ih =>
    have hscan : Inv (scan s.tracked.length s script 0 false).1 [] := kept_inv.scan _ h script 0 false
    simp only [settle] at hend ⊢
    split at hend
    case isTrue hp =>
      rw [if_pos hp]
      exact ih hscan _ hend
    case isFalse hp =>
      rw [if_neg hp]
      exact h.scan_reached _ script 0 false (by omega) (by simp) (by simpa using hp)

/-! ## Killing -/

theorem Inv.kill (h : Inv s []) {pid : Nat} (hr : Reached s pid) : Inv (kill s pid) [] := by
  unfold FdClose.kill
  cases hp : lookup Proc.pid pid s.procs with
  | none =>
    have hsame : ∀ f, updProc s pid f = s := by
      intro f
      rw [updProc, update_of_not_mem (lookup_eq_none.mp hp)]
    rw [hsame]
    exact h
  | some p =>
    have hmem := mem_of_lookup hp
    refine h.updFlags hp ?_ ?_ ?_ ?_
    · intro q
      split <;> rfl
    · intro q
      split <;> rfl
    · exact fun hne _ => hr hne p hmem (key_of_lookup hp)
    · split
      · exact fun he hk => h.finished p hmem he hk
      · intro _ hk
        cases hk

theorem Reached.kill {pid : Nat} (hr : Reached s pid) (pid' : Nat) : Reached (kill s pid') pid := by
  intro hne q hq hpid
  obtain ⟨r, hmem, rfl⟩ := mem_update.mp hq
  have hsame : ∀ (c : Prop) [Decidable c], (if c then if r.exited then r else { r with killed := true } else r).pid
      = r.pid ∧ (if c then if r.exited then r else { r with killed := true } else r).todo = r.todo := by
    intro c _
    split_ifs <;> exact ⟨rfl, rfl⟩
  rw [(hsame _).2]
  exact hr hne r hmem ((hsame _).1.symm.trans hpid)

theorem Inv.killAll (ts : List Track) (h : Inv s []) (hu : Unreopened s)
    (hr : ∀ t ∈ ts, Reached s t.pid) (script : List (List Nat)) :
    Inv (killAll ts s script).1 [] ∧ Unreopened (FdClose.killAll ts s script).1 := by
  induction ts generalizing s script with
  | nil => exact ⟨h, hu⟩
  | cons t ts ih =>
    obtain ⟨hmid, humid⟩ := kept_unreopened.interleave ⟨h, hu⟩ script
    have hrmid : ∀ t' ∈ t :: ts, Reached (interleave s script).1 t'.pid :=
      fun t' ht' => (hr t' ht').interleave h script
    exact ih (hmid.kill (hrmid t (mem_cons_self ..))) humid
      (fun t' ht' => (hrmid t' (mem_cons_of_mem _ ht')).kill t.pid) _

/-! ## Parking the record again -/

theorem repark_eq {get : Int → Option Nat} : ∀ (rec : List (Int × Option Nat)) (parked : List Int),
    parked.length + (rec.filter (fun r => (get r.1).isSome)).length ≤ parkMax →
    repark get parked rec = parked ++ (rec.filter (fun r => (get r.1).isSome)).map Prod.fst
  | [], parked, _ => by simp [repark]
  | (fd, o) :: rest, parked, hlen => by
    by_cases hfd : (get fd).isSome
    · simp only [List.filter_cons, hfd, if_true, List.length_cons] at hlen ⊢
      rw [repark, if_pos (by omega), if_pos hfd, repark_eq rest _ (by simp; omega)]
      simp
    · simp only [List.filter_cons, hfd, if_false, Bool.false_eq_true] at hlen ⊢
      rw [repark]
      split
      · exact repark_eq rest _ hlen
      · -- no room left, so no number of the record is open
        have hnil : (rest.filter (fun r => (get r.1).isSome)) = [] :=
          length_eq_zero_iff.mp (by omega)
        rw [hnil]
        simp

theorem Core.count_open_record (h : Core s held) (hu : Unreopened s) (n : Int) :
    ((s.ovfFds.filter (fun r => (s.table.get r.1).isSome)).map Prod.fst).count n =
      liveCount s.table.get s.ovfFds n := by
  rw [count_eq_countP, countP_map, countP_filter, liveCount]
  apply countP_congr
  intro r hr
  obtain ⟨f, -, hf⟩ := h.recHanded r hr
  simp only [Function.comp, Bool.and_eq_true, beq_iff_eq, decide_eq_true_eq]
  constructor
  · rintro ⟨rfl, hopen⟩
    rcases hu r hr with hn | hn
    · rw [hn] at hopen
      cases hopen
    · exact ⟨rfl, by rw [hf]; rfl, hn⟩
  · rintro ⟨rfl, hsome, hget⟩
    exact ⟨rfl, by rw [hget]; exact hsome⟩

theorem Core.repark_room (h : Core s []) (hu : Unreopened s) (hnone : s.ovf = none) :
    repark s.table.get s.parked s.ovfFds =
      s.parked ++ (s.ovfFds.filter (fun r => (s.table.get r.1).isSome)).map Prod.fst := by
  apply repark_eq
  have hcount : ∀ n, (s.parked ++ (s.ovfFds.filter (fun r => (s.table.get r.1).isSome)).map Prod.fst).count n
      ≤ due s n := by
    intro n
    have hledger := h.ledger n
    have hrec : recCount s n = liveCount s.table.get s.ovfFds n := by simp [recCount, hnone]
    rw [count_append, h.count_open_record hu]
    simp only [refs, hrec] at hledger
    omega
  have hnodup := nodup_iff_count_le_one.mpr (fun n => (hcount n).trans (due_le_one s n))
  have := s.table.length_le_limit hnodup ?_
  · rwa [h.limit, length_append, length_map] at this
  · intro fd hfd
    have hpos := count_pos_iff.mpr hfd
    have hle := hcount fd
    have hw : Waiting s fd := by
      by_contra hn
      rw [due_eq_zero hn] at hle
      omega
    obtain ⟨f, -, hf⟩ := hw
    rw [hf]
    rfl

theorem resume_of_none {ok : Bool} (h : s.ovf = none) : resume s ok =
    reopen (flush { s with parked := repark s.table.get s.parked s.ovfFds, ovfFds := [] } ok) := by
  simp only [resume, h]

theorem resume_of_some {ok : Bool} (h : s.ovf ≠ none) : resume s ok = reopen (flush s ok) := by
  unfold resume
  split
  case h_1 hnone => exact absurd hnone h
  · rfl

theorem Rest.passrights (h : Rest s) (on : Bool) : Rest (passrights s on) := by
  unfold FdClose.passrights
  split_ifs <;> exact h

theorem Inv.flushReopen (h : Inv s []) (hr : Rest s) (ok : Bool) :
    Inv (FdClose.reopen (FdClose.flush s ok)) [] ∧ Rest (FdClose.reopen (FdClose.flush s ok)) := by
  refine ⟨(h.flush hr ok).reopen, ?_⟩
  unfold FdClose.reopen
  split
  · exact (hr.flush ok).passrights true
  · exact hr.flush ok

theorem Inv.resume (h : Inv s []) (hu : s.ovf = none → Unreopened s) (ok : Bool) :
    Inv (resume s ok) [] ∧ Rest (FdClose.resume s ok) := by
  by_cases hovf : s.ovf = none
  · have hroom := h.repark_room (hu hovf) hovf
    rw [resume_of_none hovf]
    refine Inv.flushReopen ?_ (fun _ _ => rfl) ok
    refine { h with ledger := ?_, recHanded := by simp, recTodo := ?_ }
    · intro n
      have hledger := h.ledger n
      have hrec : recCount s n = liveCount s.table.get s.ovfFds n := by simp [recCount, hovf]
      have hrec' : recCount { s with parked := repark s.table.get s.parked s.ovfFds, ovfFds := [] } n = 0 := by
        simp [recCount, liveCount]
      have hparked : (repark s.table.get s.parked s.ovfFds).count n =
          s.parked.count n + liveCount s.table.get s.ovfFds n := by
        rw [hroom, count_append, h.count_open_record (hu hovf)]
      have hdue : due { s with parked := repark s.table.get s.parked s.ovfFds, ovfFds := [] } n = due s n :=
        due_congr rfl rfl
      simp only [refs, hrec, hrec', hparked, hdue] at hledger ⊢
      omega
    · intro p hp ho
      cases hovf.symm.trans ho
  · rw [resume_of_some hovf]
    exact h.flushReopen (fun hnone => absurd hnone hovf) ok

end SchemaInit.FdClose
