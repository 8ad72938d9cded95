/-
# `SchemaInit.Lib.WaitFor` — wait-for graphs

`R a b` says that `a` waits for `b`.  A set is *stuck* if it is not empty and every
member waits for a member.  Among finitely many nodes a stuck set and a cycle are the
same thing; and if the edges are of two kinds, one of which only leads down in rank,
every cycle has an edge of the other kind.
-/
import Mathlib.Data.Set.Finite.Basic
import Mathlib.Data.Fintype.Card
import Mathlib.Order.WellFounded
import Mathlib.Logic.Relation
import Mathlib.Order.RelClasses

namespace WaitFor

open Relation

variable {α : Type*}

/-- Every member waits for a member. -/
def Stuck (R : α → α → Prop) (S : Set α) : Prop :=
  S.Nonempty ∧ ∀ a ∈ S, ∃ b ∈ S, R a b

/-- The nodes of a cycle are stuck. -/
theorem stuck_of_cycle {R : α → α → Prop} {a b : α} (hab : R a b) (hba : ReflTransGen R b a) :
    Stuck R { u | ReflTransGen R b u ∧ ReflTransGen R u a } := by
  refine ⟨⟨b, .refl, hba⟩, ?_⟩
  rintro u ⟨hbu, hua⟩
  rcases ReflTransGen.cases_head hua with rfl | ⟨v, huv, hva⟩
  · exact ⟨b, ⟨.refl, hba⟩, hab⟩
  · exact ⟨v, ⟨hbu.tail huv, hva⟩, huv⟩

/-- A finite stuck set has a cycle. -/
theorem cycle_of_stuck {R : α → α → Prop} {S : Set α} (hfin : S.Finite) (h : Stuck R S) : ∃ a, TransGen R a a := by
  by_contra hno
  have : Finite S := hfin
  -- on the members, "is waited for by" has no cycle, so some member waits for none
  let r : S → S → Prop := TransGen fun x y => R y.1 x.1
  have hlift : ∀ x y : S, r x y → TransGen R y.1 x.1 := by
    intro x y hxy
    induction hxy with
    | single hxy => exact .single hxy
    | tail _ hyz ih => exact .head hyz ih
  have hirr : Std.Irrefl r := ⟨fun x hx => hno ⟨x.1, hlift x x hx⟩⟩
  have htrans : IsTrans S r := inferInstanceAs _
  have hwf : WellFounded r := Finite.wellFounded_of_trans_of_irrefl r
  obtain ⟨⟨a, ha⟩, hall⟩ := h
  obtain ⟨m, _, hmin⟩ := hwf.has_min Set.univ ⟨⟨a, ha⟩, trivial⟩
  obtain ⟨b, hb, hmb⟩ := hall m.1 m.2
  exact hmin ⟨b, hb⟩ trivial (.single hmb)

/-- If the edges `E` lead down in rank, a path of `E` and `G` edges leads down in rank or
uses a `G` edge. -/
theorem path_split {E G : α → α → Prop} {rank : α → Nat} (hrank : ∀ a b, E a b → rank b < rank a) {a b : α}
    (h : TransGen (fun x y => E x y ∨ G x y) a b) :
    rank b < rank a ∨
      ∃ u v, G u v ∧ ReflTransGen (fun x y => E x y ∨ G x y) a u ∧ ReflTransGen (fun x y => E x y ∨ G x y) v b := by
  induction h with
  | single hab =>
    rcases hab with he | hg
    · exact .inl (hrank _ _ he)
    · exact .inr ⟨_, _, hg, .refl, .refl⟩
  | tail hpath hbc ih =>
    rcases ih with hlt | ⟨u, v, hg, hau, hvb⟩
    · rcases hbc with he | hg
      · exact .inl ((hrank _ _ he).trans hlt)
      · exact .inr ⟨_, _, hg, hpath.to_reflTransGen, .refl⟩
    · exact .inr ⟨u, v, hg, hau, hvb.tail hbc⟩

/-- Every cycle has an edge of the second kind. -/
theorem edge_of_cycle {E G : α → α → Prop} {rank : α → Nat} (hrank : ∀ a b, E a b → rank b < rank a) {a : α}
    (h : TransGen (fun x y => E x y ∨ G x y) a a) :
    ∃ u v, G u v ∧ ReflTransGen (fun x y => E x y ∨ G x y) v u := by
  rcases path_split hrank h with hlt | ⟨u, v, hg, hau, hva⟩
  · exact absurd hlt (Nat.lt_irrefl _)
  · exact ⟨u, v, hg, hva.trans hau⟩

end WaitFor
