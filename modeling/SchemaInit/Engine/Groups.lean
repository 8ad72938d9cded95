/-
# `SchemaInit.Engine.Groups` — the state of a group

`group.c` calls a group's state the worst of its members', in the order
EXCISED > FRICTION > RECOVERY > starting > stable.  The loop of `aggregate` returns at
the first member that decides, so it finds the worst one only if no later member would
have decided otherwise; and a member in DORMANT sets none of its flags, so that it
passes for a stable one.  `aggregate_worst_iff` says that these are the only two ways in
which the state is not the worst of the members'.
-/
import SchemaInit.Engine.Probe

namespace SchemaInit.Engine

open Option List

def memberState (states : List State) (m : Option Nat) : Option State :=
  m.bind fun k => states[k]?

def memberFault (states : List State) (m : Option Nat) : Option State :=
  match memberState states m with
  | none => some .newProcess
  | some .excised => some .excised
  | some .friction => some .friction
  | some .recovery => some .recovery
  | some _ => none

def groupVerdict (starting allPerfect anySettled : Bool) : State :=
  if starting then .newProcess
  else if allPerfect then .perfect
  else if anySettled then .settled
  else .fundamental

def memberStarting (states : List State) (m : Option Nat) : Bool :=
  memberState states m = some .newProcess || memberState states m = some .fullTrust

theorem aggregateLoop_eq (states : List State) (members : List (Option Nat)) (starting allPerfect anySettled : Bool) :
    aggregateLoop states members starting allPerfect anySettled = (members.findSome? (memberFault states)).getD
        (groupVerdict (starting || members.any (memberStarting states))
          (allPerfect && members.all fun m => memberState states m = some .perfect)
          (anySettled || members.any fun m => memberState states m = some .settled)) := by
  induction members generalizing starting allPerfect anySettled with
  | nil => simp [aggregateLoop, groupVerdict]
  | cons m members ih =>
    have hgo (s : State) (hs : memberState states m = some s) (hnone : memberFault states m = none) :
        aggregateLoop states members (starting || s = .newProcess || s = .fullTrust) (allPerfect && s = .perfect)
          (anySettled || s = .settled) = ((m :: members).findSome? (memberFault states)).getD
            (groupVerdict (starting || (m :: members).any (memberStarting states))
              (allPerfect && (m :: members).all fun m => memberState states m = some .perfect)
              (anySettled || (m :: members).any fun m => memberState states m = some .settled)) := by
      rw [ih, findSome?_cons_of_isNone (by rw [hnone]; rfl)]
      simp [memberStarting, hs, Bool.or_assoc, Bool.and_assoc]
    cases m with
    | none => rfl
    | some k =>
      unfold aggregateLoop
      cases hk : states[k]? with
      | none => simp [memberFault, memberState, hk]
      | some s =>
        have hs : memberState states (some k) = some s := hk
        cases s with
        | excised => simp [memberFault, hs]
        | friction => simp [memberFault, hs]
        | recovery => simp [memberFault, hs]
        | _ => exact hgo _ hs (by rw [memberFault, hs])

/-! ## The worst of the members -/

def State.severity : State → Nat
  | .excised => 4
  | .friction => 3
  | .recovery => 2
  | .newProcess | .fullTrust | .dormant => 1
  | .fundamental | .settled | .perfect => 0

def memberSeverity (states : List State) (m : Option Nat) : Nat :=
  (memberState states m).elim 1 State.severity

def worstSeverity (states : List State) (members : List (Option Nat)) : Nat :=
  (members.map (memberSeverity states)).foldr max 0

/-- The state of the group is the worst of its members', whatever their order, and is stable only if every
member is there and stable. -/
structure WorstCase (members : List (Option Nat)) (states : List State) : Prop where
  worst : (aggregate members states).severity = worstSeverity states members
  order : ∀ l : List (Option Nat), l.Perm members → aggregate l states = aggregate members states
  stable : (aggregate members states).stable = true →
    ∀ m ∈ members, ∃ s, memberState states m = some s ∧ s.stable = true

/-- The members that end the loop end it in the same state, and a member in DORMANT is not the worst. -/
structure OneFault (members : List (Option Nat)) (states : List State) : Prop where
  faults : ∀ m ∈ members, ∀ m' ∈ members, ∀ f f', memberFault states m = some f →
    memberFault states m' = some f' → f = f'
  dormant : ∀ m ∈ members, memberState states m = some .dormant →
    ∃ m' ∈ members, (memberFault states m').isSome = true ∨ memberStarting states m' = true

theorem aggregate_eq {members : List (Option Nat)} (states : List State) (h : members ≠ []) : aggregate members states =
      (members.findSome? (memberFault states)).getD
        (groupVerdict (members.any (memberStarting states)) (members.all fun m => memberState states m = some .perfect)
          (members.any fun m => memberState states m = some .settled)) := by
  have hne : members.isEmpty = false := by simpa using h
  rw [aggregate, hne]
  simp [aggregateLoop_eq]

section

variable {states : List State} {members : List (Option Nat)} {m : Option Nat}

theorem le_worstSeverity (h : m ∈ members) : memberSeverity states m ≤ worstSeverity states members := by
  induction members with
  | nil => cases h
  | cons m' members ih =>
    rcases mem_cons.mp h with rfl | h
    · exact le_max_left _ _
    · exact (ih h).trans (le_max_right _ _)

theorem worstSeverity_le {n : Nat} (h : ∀ m ∈ members, memberSeverity states m ≤ n) :
    worstSeverity states members ≤ n := by
  induction members with
  | nil => exact Nat.zero_le n
  | cons m' members ih =>
    exact max_le (h m' (mem_cons_self ..)) (ih fun m hm => h m (mem_cons_of_mem _ hm))

theorem severity_of_fault {f : State} (h : memberFault states m = some f) :
    memberSeverity states m = f.severity ∧ 1 ≤ f.severity ∧ f.stable = false := by
  unfold memberFault at h
  unfold memberSeverity
  cases hs : memberState states m with
  | none =>
    rw [hs] at h
    cases h
    exact ⟨rfl, le_refl _, rfl⟩
  | some s =>
    rw [hs] at h
    cases s with
    | excised | friction | recovery =>
      cases h
      exact ⟨rfl, by decide, rfl⟩
    | _ => cases h

theorem cases_of_no_fault (h : memberFault states m = none) :
    (memberStarting states m = true ∧ memberSeverity states m = 1) ∨
      (memberState states m = some .dormant ∧ memberSeverity states m = 1) ∨
        ∃ s, memberState states m = some s ∧ s.stable = true ∧ memberSeverity states m = 0 := by
  unfold memberFault at h
  unfold memberStarting memberSeverity
  cases hs : memberState states m with
  | none =>
    rw [hs] at h
    cases h
  | some s =>
    rw [hs] at h
    cases s with
    | excised | friction | recovery => cases h
    | newProcess | fullTrust => exact .inl ⟨rfl, rfl⟩
    | dormant => exact .inr (.inl ⟨rfl, rfl⟩)
    | fundamental | settled | perfect => exact .inr (.inr ⟨_, rfl, rfl, rfl⟩)

theorem severity_le_one_of_no_fault (h : memberFault states m = none) : memberSeverity states m ≤ 1 := by
  rcases cases_of_no_fault h with ⟨-, h1⟩ | ⟨-, h1⟩ | ⟨s, -, -, h1⟩
  · omega
  · omega
  · omega

theorem groupVerdict_of_not_starting (allPerfect anySettled : Bool) :
    (groupVerdict false allPerfect anySettled).stable = true ∧
    (groupVerdict false allPerfect anySettled).severity = 0 := by
  cases allPerfect <;> cases anySettled <;> exact ⟨rfl, rfl⟩

theorem findSome?_eq_none_of_perm {l : List (Option Nat)} (hl : l.Perm members)
    (h : members.findSome? (memberFault states) = none) : l.findSome? (memberFault states) = none :=
  findSome?_eq_none_iff.mpr fun m hm => findSome?_eq_none_iff.mp h m (hl.mem_iff.mp hm)

theorem worstCase_of_fault {f : State} (h : OneFault members states)
    (hf : members.findSome? (memberFault states) = some f) :
    WorstCase members states := by
  have hagree : ∀ l : List (Option Nat), l.Perm members → aggregate l states = f := by
    intro l hl
    obtain ⟨m0, hm0, hfault0⟩ := exists_of_findSome?_eq_some hf
    cases hfind : l.findSome? (memberFault states) with
    | none => exact absurd hfault0 (by simp [findSome?_eq_none_iff.mp hfind m0 (hl.mem_iff.mpr hm0)])
    | some f' =>
      obtain ⟨m', hm', hfault'⟩ := exists_of_findSome?_eq_some hfind
      rw [aggregate_eq states (ne_nil_of_mem hm'), hfind]
      exact h.faults m' (hl.mem_iff.mp hm') m0 hm0 _ _ hfault' hfault0
  obtain ⟨m0, hm0, hfault0⟩ := exists_of_findSome?_eq_some hf
  obtain ⟨hsev, hone, hunstable⟩ := severity_of_fault hfault0
  have hself := hagree members (.refl _)
  refine ⟨?_, fun l hl => (hagree l hl).trans hself.symm, ?_⟩
  · rw [hself]
    refine le_antisymm (hsev ▸ le_worstSeverity hm0) (worstSeverity_le fun m hm => ?_)
    cases hfault : memberFault states m with
    | none => exact (severity_le_one_of_no_fault hfault).trans hone
    | some f' =>
      rw [(severity_of_fault hfault).1, h.faults m hm m0 hm0 _ _ hfault hfault0]
  · rw [hself, hunstable]
    exact fun h => absurd h (by decide)

theorem worstCase_of_no_fault (h : OneFault members states) (hne : members ≠ [])
    (hf : members.findSome? (memberFault states) = none) : WorstCase members states := by
  have hnone := findSome?_eq_none_iff.mp hf
  -- nothing starts and nothing is at fault: every member is stable
  have hquiet : members.any (memberStarting states) = false → ∀ m ∈ members,
      ∃ s, memberState states m = some s ∧ s.stable = true ∧ memberSeverity states m = 0 := by
    intro hstart m hm
    rcases cases_of_no_fault (hnone m hm) with ⟨hms, -⟩ | ⟨hdormant, -⟩ | hstable
    · exact absurd hms (by simpa using any_eq_false.mp hstart m hm)
    · obtain ⟨m', hm', hfault | hms⟩ := h.dormant m hm hdormant
      · rw [hnone m' hm'] at hfault
        cases hfault
      · exact absurd hms (by simpa using any_eq_false.mp hstart m' hm')
    · exact hstable
  refine ⟨?_, ?_, ?_⟩
  · rw [aggregate_eq states hne, hf, getD_none]
    cases hstart : members.any (memberStarting states) with
    | true =>
      obtain ⟨m, hm, hms⟩ := any_eq_true.mp hstart
      refine le_antisymm ?_ (worstSeverity_le fun m hm => severity_le_one_of_no_fault (hnone m hm))
      have hsev : memberSeverity states m = 1 := by
        rcases cases_of_no_fault (hnone m hm) with ⟨-, h1⟩ | ⟨-, h1⟩ | ⟨s, hs, hstable, -⟩
        · exact h1
        · exact h1
        · simp only [memberStarting, hs, Bool.or_eq_true, decide_eq_true_eq, some.injEq] at hms
          rcases hms with rfl | rfl
          · cases hstable
          · cases hstable
      have hle : memberSeverity states m ≤ worstSeverity states members := le_worstSeverity hm
      rw [hsev] at hle
      exact hle
    | false =>
      rw [(groupVerdict_of_not_starting _ _).2]
      refine (Nat.le_zero.mp (worstSeverity_le fun m hm => ?_)).symm
      obtain ⟨s, -, -, hzero⟩ := hquiet hstart m hm
      exact hzero.le
  · intro l hl
    have hl' : l ≠ [] := fun h0 => hne (nil_perm.mp (h0 ▸ hl))
    rw [aggregate_eq states hl', aggregate_eq states hne, findSome?_eq_none_of_perm hl hf,
      hf, hl.any_eq, hl.any_eq, hl.all_eq]
  · rw [aggregate_eq states hne, hf, getD_none]
    intro hstable m hm
    have hstart : members.any (memberStarting states) = false := by
      cases hstart : members.any (memberStarting states) with
      | false => rfl
      | true => rw [hstart] at hstable; cases hstable
    obtain ⟨s, hs, hstable, -⟩ := hquiet hstart m hm
    exact ⟨s, hs, hstable⟩

theorem aggregate_cons_of_fault {f : State} (h : memberFault states m = some f) :
    aggregate (m :: members) states = f := by
  rw [aggregate_eq states (cons_ne_nil _ _), findSome?_cons_of_isSome (by rw [h]; rfl), h]
  rfl

theorem WorstCase.oneFault (h : WorstCase members states) : OneFault members states := by
  constructor
  · intro m hm m' hm' f f' hf hf'
    have hfirst := h.order _ (perm_cons_erase hm).symm
    have hsecond := h.order _ (perm_cons_erase hm').symm
    rw [aggregate_cons_of_fault hf] at hfirst
    rw [aggregate_cons_of_fault hf'] at hsecond
    exact hfirst.trans hsecond.symm
  · intro m hm hdormant
    by_contra hnone
    push Not at hnone
    have hfind : members.findSome? (memberFault states) = none :=
      findSome?_eq_none_iff.mpr fun m' hm' => not_isSome_iff_eq_none.mp (hnone m' hm').1
    have hstart : members.any (memberStarting states) = false :=
      any_eq_false.mpr fun m' hm' => (hnone m' hm').2
    have hstable : (aggregate members states).stable = true := by
      rw [aggregate_eq states (ne_nil_of_mem hm), hfind, hstart]
      exact (groupVerdict_of_not_starting _ _).1
    obtain ⟨s, hs, hss⟩ := h.stable hstable m hm
    rw [hdormant] at hs
    cases hs
    cases hss

end

/-- The state of a group is the worst of its members', in every order of the members and never stable with a
member that is not, exactly if all members that end the loop of `aggregate` (missing, EXCISED, FRICTION,
RECOVERY) end it in the same state, and beside a DORMANT member there is one that ends the loop or is
starting. -/
theorem aggregate_worst_iff (members : List (Option Nat)) (states : List State) :
    WorstCase members states ↔ OneFault members states := by
  refine ⟨WorstCase.oneFault, fun h => ?_⟩
  by_cases hne : members = []
  · subst hne
    exact ⟨rfl, fun l hl => by rw [perm_nil.mp hl], fun _ m hm => by cases hm⟩
  · cases hf : members.findSome? (memberFault states) with
    | some f => exact worstCase_of_fault h hf
    | none => exact worstCase_of_no_fault h hne hf

/-- A group of one DORMANT member is FUNDAMENTAL, and one with a member in RECOVERY and one EXCISED is in the
state of the one that is listed first. -/
theorem aggregate_not_worst : (aggregate [some 0] [.dormant] = .fundamental ∧ ¬ WorstCase [some 0] [.dormant]) ∧
      aggregate [some 0, some 1] [.recovery, .excised] = .recovery ∧
        aggregate [some 1, some 0] [.recovery, .excised] = .excised ∧
          ¬ WorstCase [some 0, some 1] [.recovery, .excised] := by
  refine ⟨⟨rfl, fun h => ?_⟩, rfl, rfl, fun h => ?_⟩
  · obtain ⟨s, hs, hstable⟩ := h.stable rfl (some 0) (mem_cons_self ..)
    cases hs
    cases hstable
  · exact absurd (h.order [some 1, some 0] (List.Perm.swap ..)) (by decide)

end SchemaInit.Engine
