/-
# `SchemaInit.Engine.Cycles` — which tables `services_check_cycles` accepts

The search goes over `dep_idx` as it stands: a slot that is empty or holds an index past
the table is no edge.  It returns 0 exactly for the tables without a cycle, and its calls
of `dfs` nest no deeper than there are services (`servicesCheckCycles_exact`).
-/
import SchemaInit.Engine.Resolve

namespace SchemaInit.Engine

open Relation

variable {table : List Service} {i d : Nat}

/-- A slot of service `i` holds the index `d` of a service. -/
def DepEdge (table : List Service) (i d : Nat) : Prop :=
  ∃ s, table[i]? = some s ∧ some d ∈ s.depIdx ∧ d < table.length

/-- `services_check_cycles` with room for `depth` nested calls of `dfs`. -/
def servicesCheckCyclesWithin (table : List Service) (depth : Nat) : Option Nat :=
  (Dfs.searchWithin (depEdges table) table.length depth).map (·.cycles)

theorem mem_depEdges_iff : d ∈ depEdges table i ↔ DepEdge table i d := by
  cases hs : table[i]? with
  | none => simp [depEdges, DepEdge, hs, show (default : Service).depIdx = [] from rfl]
  | some s => simp [depEdges, DepEdge, hs]

theorem DepEdge.lt (h : DepEdge table i d) : i < table.length ∧ d < table.length := by
  obtain ⟨s, hs, _, hd⟩ := h
  exact ⟨(List.getElem?_eq_some_iff.mp hs).1, hd⟩

theorem servicesCheckCycles_exact (table : List Service) :
    servicesCheckCyclesWithin table table.length = some (servicesCheckCycles table) ∧
      (servicesCheckCycles table = 0 ↔ ∀ i, ¬ TransGen (DepEdge table) i i) := by
  have hin : ∀ v, ∀ d ∈ depEdges table v, d < table.length := fun v d hd => (mem_depEdges_iff.mp hd).lt.2
  have hedge : Dfs.Edge (depEdges table) = DepEdge table := by
    funext i d
    exact propext mem_depEdges_iff
  constructor
  · rw [servicesCheckCyclesWithin, (Dfs.search_exact hin).1]
    rfl
  · rw [← hedge]
    exact Dfs.search_eq_zero_iff hin fun v d hd => (mem_depEdges_iff.mp hd).lt.1

end SchemaInit.Engine
