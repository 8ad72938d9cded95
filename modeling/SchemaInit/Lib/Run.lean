/-
# `SchemaInit.Lib.Run` — runs of a deterministic step function

A component is given by `step : σ → ε → σ`: the state after one event.  Which
events may happen in which state is a predicate `ok : σ → ε → Prop`; the same
step function is run under several such predicates (every event the code
allows, or only those that meet a side condition).

`Reaches step ok s t` says that some sequence of allowed events leads from `s`
to `t`.  It is the reflexive transitive closure of one allowed step, so
Mathlib's `Relation.ReflTransGen` supplies composition; this file adds the
invariant rule and the link to running a concrete list of events.  The last part is the
same rule for a counting loop inside one step.
-/
import Mathlib.Logic.Relation
import Mathlib.Data.List.Range
import Mathlib.Algebra.Order.Ring.Int

namespace Run

variable {σ ε : Type*}

/-- One allowed event leads from `s` to `t`. -/
def Steps (step : σ → ε → σ) (ok : σ → ε → Prop) (s t : σ) : Prop :=
  ∃ e, ok s e ∧ t = step s e

/-- Some sequence of allowed events leads from `s` to `t`. -/
def Reaches (step : σ → ε → σ) (ok : σ → ε → Prop) : σ → σ → Prop :=
  Relation.ReflTransGen (Steps step ok)

variable {step : σ → ε → σ} {ok : σ → ε → Prop}

theorem Reaches.refl (s : σ) : Reaches step ok s s :=
  Relation.ReflTransGen.refl

theorem Reaches.tail {s t : σ} {e : ε} (h : Reaches step ok s t) (he : ok t e) : Reaches step ok s (step t e) :=
  Relation.ReflTransGen.tail h ⟨e, he, rfl⟩

/-- The invariant rule: what holds at the start and survives every allowed
event holds in every state reached. -/
theorem Reaches.invariant (Inv : σ → Prop) {s t : σ} (h : Reaches step ok s t)
    (start : Inv s) (keep : ∀ u e, Inv u → ok u e → Inv (step u e)) : Inv t := by
  induction h with
  | refl => exact start
  | tail _ hstep ih =>
    obtain ⟨e, he, rfl⟩ := hstep
    exact keep _ e ih he

/-- The same states are reached when events are renamed. -/
theorem Reaches.map {ε' : Type*} {step' : σ → ε' → σ} {ok' : σ → ε' → Prop} (f : ε → ε') {s t : σ}
    (h : Reaches step ok s t) (hf : ∀ u e, ok u e → ok' u (f e) ∧ step u e = step' u (f e)) :
    Reaches step' ok' s t := by
  induction h with
  | refl => exact .refl _
  | tail _ hstep ih =>
    obtain ⟨e, he, rfl⟩ := hstep
    obtain ⟨hok, heq⟩ := hf _ e he
    rw [heq]
    exact ih.tail hok

/-- Every event of the list is allowed at its turn. -/
def AllOk (step : σ → ε → σ) (ok : σ → ε → Prop) : σ → List ε → Prop
  | _, [] => True
  | s, e :: es => ok s e ∧ AllOk step ok (step s e) es

instance AllOk.decidable [∀ s e, Decidable (ok s e)] :
    ∀ (s : σ) (es : List ε), Decidable (AllOk step ok s es)
  | _, [] => isTrue trivial
  | s, e :: es =>
    have := AllOk.decidable (step s e) es
    inferInstanceAs (Decidable (ok s e ∧ AllOk step ok (step s e) es))

theorem AllOk.cons {s : σ} {e : ε} {es : List ε} (he : ok s e) (hes : AllOk step ok (step s e) es) :
    AllOk step ok s (e :: es) :=
  ⟨he, hes⟩

/-- Events that are allowed in every state. -/
theorem AllOk.of_forall {es : List ε} (h : ∀ e ∈ es, ∀ s, ok s e) (s : σ) : AllOk step ok s es := by
  induction es generalizing s with
  | nil => trivial
  | cons e es ih =>
    exact .cons (h e (List.mem_cons_self ..) s) (ih (fun e he => h e (List.mem_cons_of_mem _ he)) _)

/-- Running a list of allowed events reaches the state it ends in. -/
theorem AllOk.reaches : ∀ {s : σ} {es : List ε}, AllOk step ok s es → Reaches step ok s (es.foldl step s)
  | _, [], _ => .refl _
  | s, e :: _, h =>
    Relation.ReflTransGen.head ⟨e, h.1, rfl⟩ (AllOk.reaches (s := step s e) h.2)

/-! ## Counting loops -/

/-- The invariant rule for `for (i = 0; i < n; i++)`: `I k` holds when the counter is `k`. -/
theorem foldl_range {I : Nat → σ → Prop} {F : σ → Nat → σ} {n : Nat} {s : σ} (start : I 0 s)
    (keep : ∀ k u, k < n → I k u → I (k + 1) (F u k)) : I n ((List.range n).foldl F s) := by
  induction n with
  | zero => exact start
  | succ n ih =>
    rw [List.range_succ, List.foldl_append]
    exact keep n _ (Nat.lt_succ_self n) (ih fun k u hk => keep k u (Nat.lt_succ_of_lt hk))

/-- A loop in which one turn counts: `P` holds before it and `Q` after it. -/
theorem foldl_range_turn {P Q : σ → Prop} {F : σ → Nat → σ} {n i : Nat} {s : σ} (hi : i < n) (start : P s)
    (before : ∀ k u, k < i → P u → P (F u k)) (turn : ∀ u, P u → Q (F u i))
    (after : ∀ k u, i < k → k < n → Q u → Q (F u k)) : Q ((List.range n).foldl F s) := by
  have hall : (n ≤ i → P ((List.range n).foldl F s)) ∧ (i < n → Q ((List.range n).foldl F s)) := by
    refine foldl_range (I := fun k u => (k ≤ i → P u) ∧ (i < k → Q u)) ⟨fun _ => start, by simp⟩ ?_
    rintro k u hk ⟨hP, hQ⟩
    refine ⟨fun hle => before k u (by omega) (hP (by omega)), fun hlt => ?_⟩
    rcases Nat.lt_or_ge i k with hik | hik
    · exact after k u hik hk (hQ hik)
    · obtain rfl : k = i := by omega
      exact turn u (hP (by omega))
  exact hall.2 hi

end Run
