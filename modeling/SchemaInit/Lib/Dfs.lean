/-
# `SchemaInit.Lib.Dfs` — depth-first search with three colours

A directed graph on `0 … n-1` is given by its adjacency lists `succ`.  `search` is the
classical search for cycles: a node is white before it is seen, gray while its
successors are visited and black afterwards, and an edge into a gray node is counted
as a cycle.

    no cycle is counted   ⟹   some rank decreases along every edge      (`rank_of_search`)
    no cycle is counted   ⟺   there is none                             (`search_eq_zero_iff`)

The recursion of the program is bounded by the number of nodes that are not gray,
which one call lowers by one; this is the fuel `n` of `search`, and it is enough
(`visit_spec`, `search_exact`).
-/
import Mathlib.Data.Finset.Card
import Mathlib.Algebra.Order.BigOperators.Group.List
import Mathlib.Algebra.Order.Ring.Nat
import Mathlib.Logic.Relation

namespace Dfs

open Relation (TransGen)

inductive Color where
  | white
  | gray
  | black
  deriving DecidableEq

structure Search where
  color : Nat → Color
  cycles : Nat

def Search.paint (st : Search) (v : Nat) (c : Color) : Search :=
  { st with color := fun u => if u = v then c else st.color u }

/-- Visit a node: paint it gray, look at its successors, paint it black. -/
def visit (succ : Nat → List Nat) : Nat → Nat → Search → Search
  | 0, _, st => st
  | fuel + 1, v, st =>
    let look := fun (st : Search) (d : Nat) =>
      match st.color d with
      | .gray => { st with cycles := st.cycles + 1 }
      | .white => visit succ fuel d st
      | .black => st
    ((succ v).foldl look (st.paint v .gray)).paint v .black

/-- Visit every node that is still white. -/
def search (succ : Nat → List Nat) (n : Nat) : Search :=
  (List.range n).foldl (fun st v => if st.color v = .white then visit succ n v st else st)
    { color := fun _ => .white, cycles := 0 }

/-! ## What a visit leaves as it was -/

/-- Black nodes stay black, the gray nodes are the same ones, cycles are only added. -/
structure Extends (st st' : Search) : Prop where
  black : ∀ u, st.color u = .black → st'.color u = .black
  gray : ∀ u, st'.color u = .gray ↔ st.color u = .gray
  cycles : st.cycles ≤ st'.cycles

theorem Extends.refl (st : Search) : Extends st st :=
  ⟨fun _ h => h, fun _ => Iff.rfl, Nat.le_refl _⟩

theorem Extends.trans {a b c : Search} (h : Extends a b) (h' : Extends b c) : Extends a c :=
  ⟨fun u hu => h'.black u (h.black u hu), fun u => (h'.gray u).trans (h.gray u), h.cycles.trans h'.cycles⟩

/-- The number of nodes that are not gray. -/
def free (n : Nat) (st : Search) : Nat :=
  ((Finset.range n).filter fun u => st.color u ≠ .gray).card

theorem Extends.free {st st' : Search} (h : Extends st st') (n : Nat) : free n st' = free n st := by
  have : (Finset.range n).filter (fun u => st'.color u ≠ .gray) =
    (Finset.range n).filter (fun u => st.color u ≠ .gray) :=
    Finset.filter_congr fun u _ => not_congr (h.gray u)
  simp [Dfs.free, this]

theorem free_paint_lt {n v : Nat} {st : Search} (hv : v < n) (hwhite : st.color v = .white) :
    free n (st.paint v .gray) < free n st := by
  refine Finset.card_lt_card (Finset.ssubset_iff_subset_ne.mpr ⟨?_, ?_⟩)
  · intro u hu
    obtain ⟨hrange, hcolor⟩ := Finset.mem_filter.mp hu
    refine Finset.mem_filter.mpr ⟨hrange, ?_⟩
    by_cases huv : u = v
    · simp [Search.paint, huv] at hcolor
    · simpa [Search.paint, huv] using hcolor
  · intro heq
    have hmem : v ∈ (Finset.range n).filter fun u => st.color u ≠ .gray := by
      simp [hv, hwhite]
    rw [← heq] at hmem
    simp [Search.paint] at hmem

/-! ## What a search without cycles proves -/

/-- The successors of a black node are black, and rank below it. -/
def Ranked (succ : Nat → List Nat) (st : Search) : Prop :=
  ∃ rank : Nat → Nat, ∀ v, st.color v = .black → ∀ d ∈ succ v, st.color d = .black ∧ rank d < rank v

section
variable {succ : Nat → List Nat} {n : Nat}

theorem Ranked.paint_gray {v : Nat} {st : Search} (h : Ranked succ st) (hwhite : st.color v = .white) :
    Ranked succ (st.paint v .gray) := by
  obtain ⟨rank, hrank⟩ := h
  refine ⟨rank, fun u hu d hd => ?_⟩
  have huv : u ≠ v := by
    rintro rfl
    simp [Search.paint] at hu
  have hub : st.color u = .black := by simpa [Search.paint, huv] using hu
  obtain ⟨hd', hlt⟩ := hrank u hub d hd
  have hdv : d ≠ v := by
    rintro rfl
    rw [hwhite] at hd'
    cases hd'
  exact ⟨by simpa [Search.paint, hdv] using hd', hlt⟩

/-- The node that is finished goes above its successors. -/
theorem Ranked.paint_black {v : Nat} {st : Search} (h : Ranked succ st) (hgray : st.color v = .gray)
    (hdone : ∀ d ∈ succ v, st.color d = .black) : Ranked succ (st.paint v .black) := by
  obtain ⟨rank, hrank⟩ := h
  have hne : ∀ d, st.color d = .black → d ≠ v := by
    rintro d hd rfl
    rw [hgray] at hd
    cases hd
  refine ⟨fun u => if u = v then ((succ v).map rank).sum + 1 else rank u, fun u hu d hd => ?_⟩
  by_cases huv : u = v
  · subst huv
    have hd' := hdone d hd
    have hle : rank d ≤ ((succ u).map rank).sum :=
      List.single_le_sum (fun _ _ => Nat.zero_le _) _ (List.mem_map_of_mem hd)
    refine ⟨by simpa [Search.paint, hne d hd'] using hd', ?_⟩
    simp only [hne d hd', if_false, if_true]
    omega
  · have hub : st.color u = .black := by simpa [Search.paint, huv] using hu
    obtain ⟨hd', hlt⟩ := hrank u hub d hd
    refine ⟨by simpa [Search.paint, hne d hd'] using hd', ?_⟩
    simpa [hne d hd', huv] using hlt

/-- What looking at a node achieves: it is black afterwards, unless a cycle is counted. -/
structure Cleared (succ : Nat → List Nat) (v : Nat) (st st' : Search) : Prop where
  extends_ : Extends st st'
  black : st'.cycles = 0 → st'.color v = .black
  ranked : st'.cycles = 0 → Ranked succ st → Ranked succ st'

/-- Looking at a list of nodes clears each of them. -/
theorem Cleared.foldl (succ : Nat → List Nat) (n : Nat) (look : Search → Nat → Search) (I : Search → Prop)
    (hI : ∀ st st', Extends st st' → I st → I st')
    (hlook : ∀ st d, I st → d < n → Cleared succ d st (look st d)) :
    ∀ (ds : List Nat) (st : Search), (∀ d ∈ ds, d < n) → I st → Extends st (ds.foldl look st) ∧
        ((ds.foldl look st).cycles = 0 →
          (∀ d ∈ ds, (ds.foldl look st).color d = .black) ∧ (Ranked succ st → Ranked succ (ds.foldl look st))) := by
  intro ds
  induction ds with
  | nil =>
    intro st _ _
    exact ⟨.refl st, fun _ => ⟨by simp, id⟩⟩
  | cons d ds ih =>
    intro st hds hst
    have hone := hlook st d hst (hds d (by simp))
    obtain ⟨hext, hall⟩ := ih (look st d) (fun u hu => hds u (List.mem_cons_of_mem _ hu)) (hI _ _ hone.extends_ hst)
    rw [List.foldl_cons]
    refine ⟨hone.extends_.trans hext, fun hzero => ?_⟩
    obtain ⟨hmem, hranked⟩ := hall hzero
    have hzero' : (look st d).cycles = 0 := Nat.le_zero.mp (hzero ▸ hext.cycles)
    refine ⟨?_, fun h => hranked (hone.ranked hzero' h)⟩
    intro u hu
    rcases List.mem_cons.mp hu with rfl | hu
    · exact hext.black u (hone.black hzero')
    · exact hmem u hu

/-- Looking at one node clears it, if visiting a white one does. -/
theorem look_cleared {fuel : Nat} (h : ∀ (v : Nat) (st : Search), st.color v = .white → v < n → free n st ≤ fuel →
    Cleared succ v st (visit succ fuel v st)) (st : Search) (d : Nat) (hst : free n st ≤ fuel) (hd : d < n) :
    Cleared succ d st (match st.color d with
      | .gray => { st with cycles := st.cycles + 1 }
      | .white => visit succ fuel d st
      | .black => st) := by
  cases hc : st.color d with
  | gray =>
    -- an edge into a gray node is counted, so nothing is claimed about it
    refine ⟨⟨?_, ?_, ?_⟩, ?_, ?_⟩ <;> simp
  | white => exact h d st hc hd hst
  | black => exact ⟨.refl st, fun _ => hc, fun _ => id⟩

/-- With fuel for every node that is not gray, a visit of a white node clears it. -/
theorem visit_spec (hsucc : ∀ v, ∀ d ∈ succ v, d < n) :
    ∀ (fuel v : Nat) (st : Search), st.color v = .white → v < n → free n st ≤ fuel →
      Cleared succ v st (visit succ fuel v st) := by
  intro fuel
  induction fuel with
  | zero =>
    intro v st hwhite hv hfree
    have := free_paint_lt hv hwhite
    omega
  | succ fuel ih =>
    intro v st hwhite hv hfree
    have hlt := free_paint_lt hv hwhite
    have hloop := Cleared.foldl succ n _ (fun st => free n st ≤ fuel)
      (fun st st' h hst => (h.free n).trans_le hst) (look_cleared ih)
      (succ v) (st.paint v .gray) (hsucc v) (by omega)
    rw [visit]
    generalize (succ v).foldl _ (st.paint v .gray) = st' at hloop ⊢
    obtain ⟨hext, hall⟩ := hloop
    have hgray : st'.color v = .gray := (hext.gray v).mpr (by simp [Search.paint])
    constructor
    · refine ⟨fun u hu => ?_, fun u => ?_, hext.cycles⟩
      · have huv : u ≠ v := by
          rintro rfl
          rw [hwhite] at hu
          cases hu
        have := hext.black u (by simpa [Search.paint, huv] using hu)
        simpa [Search.paint, huv] using this
      · by_cases huv : u = v
        · simp [Search.paint, huv, hwhite]
        · simpa [Search.paint, huv] using hext.gray u
    · simp [Search.paint]
    · intro hzero hranked
      obtain ⟨hdone, hranked'⟩ := hall hzero
      exact (hranked' (hranked.paint_gray hwhite)).paint_black hgray hdone

/-- A search that counts no cycle proves that there is none. -/
theorem rank_of_search (hsucc : ∀ v, ∀ d ∈ succ v, d < n) (h : (search succ n).cycles = 0) :
    ∃ rank : Nat → Nat, ∀ v < n, ∀ d ∈ succ v, rank d < rank v := by
  have hloop := Cleared.foldl succ n (fun st v => if st.color v = .white then visit succ n v st else st)
    (fun st => ∀ u, st.color u ≠ .gray)
    (fun st st' hext hst u hu => hst u ((hext.gray u).mp hu))
    (fun st v hst hv => by
      by_cases hwhite : st.color v = .white
      · have hfree : free n st ≤ n := (Finset.card_filter_le _ _).trans (by simp)
        simpa [hwhite] using visit_spec hsucc n v st hwhite hv hfree
      · have hblack : st.color v = .black := by
          cases hc : st.color v with
          | white => exact absurd hc hwhite
          | gray => exact absurd hc (hst v)
          | black => rfl
        simp only [hwhite, if_false]
        exact ⟨.refl st, fun _ => hblack, fun _ => id⟩)
    (List.range n) { color := fun _ => .white, cycles := 0 } (fun v hv => List.mem_range.mp hv) (by simp)
  obtain ⟨hall, hranked⟩ := hloop.2 h
  obtain ⟨rank, hrank⟩ := hranked ⟨fun _ => 0, fun _ hb => by cases hb⟩
  exact ⟨rank, fun v hv d hd => (hrank v (hall v (List.mem_range.mpr hv)) d hd).2⟩

/-! ## What is searched, and how deep -/

def Edge (succ : Nat → List Nat) (u d : Nat) : Prop :=
  d ∈ succ u

/-- `visit` as a run that gives up where its calls would nest deeper than `depth`. -/
def visitWithin (succ : Nat → List Nat) : Nat → Nat → Search → Option Search
  | 0, _, _ => none
  | depth + 1, v, st =>
    let look := fun (st : Search) (d : Nat) =>
      match st.color d with
      | .gray => some { st with cycles := st.cycles + 1 }
      | .white => visitWithin succ depth d st
      | .black => some st
    ((succ v).foldlM look (st.paint v .gray)).map fun st => st.paint v .black

def searchWithin (succ : Nat → List Nat) (n depth : Nat) : Option Search :=
  (List.range n).foldlM (fun st v => if st.color v = .white then visitWithin succ depth v st else some st)
    { color := fun _ => .white, cycles := 0 }

theorem foldlM_eq_some {look : Search → Nat → Search} {look' : Search → Nat → Option Search} {I : Search → Prop}
    {ds : List Nat} (h : ∀ st, I st → ∀ d ∈ ds, look' st d = some (look st d) ∧ I (look st d)) {st : Search}
    (hst : I st) : ds.foldlM look' st = some (ds.foldl look st) ∧ I (ds.foldl look st) := by
  induction ds generalizing st with
  | nil => exact ⟨rfl, hst⟩
  | cons d ds ih =>
    obtain ⟨heq, hnext⟩ := h st hst d (by simp)
    rw [List.foldlM_cons, heq, List.foldl_cons]
    exact ih (fun st hst u hu => h st hst u (List.mem_cons_of_mem _ hu)) hnext

variable (hsucc : ∀ v, ∀ d ∈ succ v, d < n)
include hsucc

/-- The calls nest no deeper than there are nodes that are not gray.  The gray nodes lead to
the node that is visited, so a successor is gray only on a path that returns to its start. -/
theorem visit_exact : ∀ (fuel v : Nat) (st : Search), st.color v = .white → v < n → free n st ≤ fuel →
    visitWithin succ fuel v st = some (visit succ fuel v st) ∧
      ((∀ u, ¬ TransGen (Edge succ) u u) → (∀ u, st.color u = .gray → TransGen (Edge succ) u v) →
        (visit succ fuel v st).cycles = st.cycles) := by
  intro fuel
  induction fuel with
  | zero =>
    intro v st hwhite hv hfree
    have := free_paint_lt hv hwhite
    omega
  | succ fuel ih =>
    intro v st hwhite hv hfree
    have hlt := free_paint_lt hv hwhite
    rw [visitWithin, visit]
    refine (foldlM_eq_some (I := fun st' => Extends (st.paint v .gray) st' ∧
      ((∀ u, ¬ TransGen (Edge succ) u u) → (∀ u, st.color u = .gray → TransGen (Edge succ) u v) →
        st'.cycles = st.cycles)) ?_ ⟨.refl _, fun _ _ => rfl⟩).imp
      (congrArg (Option.map fun st : Search => st.paint v .black)) And.right
    rintro st' ⟨hext, hcount⟩ d hd
    have hd' := hsucc v d hd
    have hfree' : free n st' ≤ fuel := (hext.free n).trans_le (by omega)
    have hext' := hext.trans (look_cleared (visit_spec hsucc fuel) st' d hfree' hd').extends_
    have hstack : (∀ u, st.color u = .gray → TransGen (Edge succ) u v) →
        ∀ u, st'.color u = .gray → TransGen (Edge succ) u d := by
      intro hpath u hu
      by_cases huv : u = v
      · exact huv ▸ .single hd
      · exact (hpath u (by simpa [Search.paint, huv] using (hext.gray u).mp hu)).tail hd
    cases hc : st'.color d with
    | gray =>
      refine ⟨rfl, by simpa [hc] using hext', fun hacyclic hpath => ?_⟩
      exact absurd (hstack hpath d hc) (hacyclic d)
    | white =>
      obtain ⟨heq, hsame⟩ := ih d st' hc hd' hfree'
      refine ⟨heq, by simpa [hc] using hext', fun hacyclic hpath => ?_⟩
      exact (hsame hacyclic (hstack hpath)).trans (hcount hacyclic hpath)
    | black => exact ⟨rfl, hext, hcount⟩

theorem search_exact : searchWithin succ n n = some (search succ n) ∧
    ((∀ v, ¬ TransGen (Edge succ) v v) → (search succ n).cycles = 0) := by
  refine (foldlM_eq_some (I := fun st => (∀ u, st.color u ≠ .gray) ∧
    ((∀ v, ¬ TransGen (Edge succ) v v) → st.cycles = 0)) ?_ (by simp)).imp id And.right
  rintro st ⟨hst, hzero⟩ v hv
  have hv := List.mem_range.mp hv
  by_cases hwhite : st.color v = .white
  · have hfree : free n st ≤ n := (Finset.card_filter_le _ _).trans (by simp)
    have hgray := (visit_spec hsucc n v st hwhite hv hfree).extends_.gray
    obtain ⟨heq, hsame⟩ := visit_exact hsucc n v st hwhite hv hfree
    rw [if_pos hwhite, if_pos hwhite]
    refine ⟨heq, fun u hu => hst u ((hgray u).mp hu), fun hacyclic => ?_⟩
    exact (hsame hacyclic fun u hu => absurd hu (hst u)).trans (hzero hacyclic)
  · rw [if_neg hwhite, if_neg hwhite]
    exact ⟨rfl, hst, hzero⟩

/-- The search counts a cycle exactly if there is one. -/
theorem search_eq_zero_iff (hout : ∀ v, ∀ d ∈ succ v, v < n) :
    (search succ n).cycles = 0 ↔ ∀ v, ¬ TransGen (Edge succ) v v := by
  refine ⟨fun h v hv => ?_, (search_exact hsucc).2⟩
  obtain ⟨rank, hrank⟩ := rank_of_search hsucc h
  have hlt : ∀ {u d}, TransGen (Edge succ) u d → rank d < rank u := fun hpath => by
    induction hpath with
    | single he => exact hrank _ (hout _ _ he) _ he
    | tail _ he ih => exact (hrank _ (hout _ _ he) _ he).trans ih
  exact Nat.lt_irrefl _ (hlt hv)

end

end Dfs
