/-
# `SchemaInit.Lib.Sweep` — one pass over an array that drops entries in place

The source walks an array of records with

    for (i = 0; i < n; )
        if (drop v[i]) v[i] = v[--n];
        else           i++;

where deciding about a record may change the record and act on the rest of the
program's state.  `sweep f s l` is this loop: `f s x` gives the new state and, for a
record that stays, what it becomes.  A dropped record's place is taken by the last
one, which is looked at next.

Every record is decided about exactly once, so a fact that `f` establishes holds of
the result: `sweep_invariant`.
-/
import Mathlib.Algebra.Order.Ring.Int

namespace Sweep

open List

variable {σ α : Type*}

/-- What is left to look at after `v[i] = v[--n]`, if `rest` was behind `v[i]`. -/
def refill (rest : List α) : List α :=
  match rest.getLast? with
  | none => []
  | some y => y :: rest.dropLast

theorem mem_refill {rest : List α} {x : α} (h : x ∈ refill rest) : x ∈ rest := by
  cases hl : rest.getLast? with
  | none => simp [refill, hl] at h
  | some y =>
    simp only [refill, hl, mem_cons] at h
    rcases h with rfl | h
    · exact mem_of_getLast? hl
    · exact (dropLast_sublist rest).subset h

theorem length_refill (rest : List α) : (refill rest).length = rest.length := by
  cases hl : rest.getLast? with
  | none =>
    have : rest = [] := getLast?_eq_none_iff.mp hl
    simp [refill, this]
  | some y =>
    have hne : rest ≠ [] := by
      rintro rfl
      simp at hl
    have hpos := length_pos_iff.mpr hne
    simp only [refill, hl, length_cons, length_dropLast]
    omega

/-- The loop, with the kept records in `done` and those not looked at in the last
argument.  The fuel is the number of records not looked at. -/
def loop (f : σ → α → σ × Option α) : Nat → σ → List α → List α → σ × List α
  | _, s, done, [] => (s, done)
  | 0, s, done, todo => (s, done ++ todo)
  | fuel + 1, s, done, x :: rest =>
    match f s x with
    | (s', some y) => loop f fuel s' (done ++ [y]) rest
    | (s', none) => loop f fuel s' done (refill rest)

def sweep (f : σ → α → σ × Option α) (s : σ) (l : List α) : σ × List α :=
  loop f l.length s [] l

section
variable {f : σ → α → σ × Option α} {P : σ → Prop} {Q K : α → Prop}

theorem loop_invariant (hstep : ∀ s x, P s → Q x → P (f s x).1 ∧ ∀ y, (f s x).2 = some y → K y) :
    ∀ {fuel : Nat} {s : σ} {done todo : List α}, todo.length ≤ fuel → P s → (∀ y ∈ done, K y) → (∀ x ∈ todo, Q x) →
      P (loop f fuel s done todo).1 ∧ ∀ y ∈ (loop f fuel s done todo).2, K y := by
  intro fuel
  induction fuel with
  | zero =>
    intro s done todo hlen hs hdone _
    have : todo = [] := length_eq_zero_iff.mp (by omega)
    subst this
    exact ⟨hs, hdone⟩
  | succ fuel ih =>
    intro s done todo hlen hs hdone htodo
    cases todo with
    | nil => exact ⟨hs, hdone⟩
    | cons x rest =>
      obtain ⟨hs', hkept⟩ := hstep s x hs (htodo x (by simp))
      have hrest : ∀ z ∈ rest, Q z := fun z hz => htodo z (mem_cons_of_mem _ hz)
      simp only [length_cons] at hlen
      cases hf : f s x with
      | mk s' o =>
        simp only [hf] at hs' hkept
        cases o with
        | none =>
          simp only [loop, hf]
          refine ih ?_ hs' hdone fun z hz => hrest z (mem_refill hz)
          rw [length_refill]
          omega
        | some y =>
          simp only [loop, hf]
          refine ih (by omega) hs' ?_ hrest
          intro z hz
          rcases mem_append.mp hz with hz | hz
          · exact hdone z hz
          · rw [mem_singleton.mp hz]
            exact hkept y rfl

/-- What one decision keeps (`P` of the state) and establishes (`K` of the record it
keeps) holds after the pass. -/
theorem sweep_invariant {s : σ} {l : List α}
    (hstep : ∀ s x, P s → Q x → P (f s x).1 ∧ ∀ y, (f s x).2 = some y → K y) (hs : P s) (hl : ∀ x ∈ l, Q x) :
    P (sweep f s l).1 ∧ ∀ y ∈ (sweep f s l).2, K y :=
  loop_invariant hstep (Nat.le_refl _) hs (by simp) hl

end

end Sweep
