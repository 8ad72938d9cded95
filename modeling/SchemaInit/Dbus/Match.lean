/-
# `SchemaInit.Dbus.Match` — match rules (`sdbus_match.h`)

A rule is a comma-separated list of `key='value'` pairs.  An absent key is a
wildcard; unknown keys are accepted and ignored; a key given twice keeps its
last value.  A rule keeps its text, by which it is removed, and the last rule
moves into the gap: `matches_by_live_rules` says that nobody sees the difference.
-/
import SchemaInit.Lib.CStr
import SchemaInit.Lib.KeyedList

namespace SchemaInit.Dbus

open List

structure MatchRule where
  type : Option Bytes
  interface : Option Bytes
  member : Option Bytes
  path : Option Bytes
  pathNamespace : Option Bytes
  sender : Option Bytes
  destination : Option Bytes
  arg0 : Option Bytes
  arg0Namespace : Option Bytes
  raw : Bytes
  deriving DecidableEq

def MatchRule.blank : MatchRule where
  type := none
  interface := none
  member := none
  path := none
  pathNamespace := none
  sender := none
  destination := none
  arg0 := none
  arg0Namespace := none
  raw := []

abbrev MatchSet := List MatchRule

/-! ## Parsing -/

def MatchRule.setKey (r : MatchRule) (key value : Bytes) : MatchRule :=
  if key = cstr "type" then { r with type := some value }
  else if key = cstr "interface" then { r with interface := some value }
  else if key = cstr "member" then { r with member := some value }
  else if key = cstr "path" then { r with path := some value }
  else if key = cstr "path_namespace" then { r with pathNamespace := some value }
  else if key = cstr "sender" then { r with sender := some value }
  else if key = cstr "destination" then { r with destination := some value }
  else if key = cstr "arg0" then { r with arg0 := some value }
  else if key = cstr "arg0namespace" then { r with arg0Namespace := some value }
  else r

/-- The loop of `sdbus__parse_rule`.  A round consumes at least the key's `=`,
so the text's length is fuel enough. -/
def parseRuleFrom : Nat → Bytes → MatchRule → Option MatchRule
  | 0, _, r => some r
  | fuel + 1, p, r =>
    let p := p.dropWhile (fun b => b = ch ' ' ∨ b = ch ',')
    if p = [] then some r
    else
      let key := p.takeWhile (fun b => b ≠ ch '=' ∧ b ≠ ch ',')
      match p.drop key.length with
      | eq :: quote :: p =>
        if eq ≠ ch '=' ∨ quote ≠ ch '\'' then none
        else
          let value := p.takeWhile (fun b => b ≠ ch '\'')
          match p.drop value.length with
          | [] => none
          | _ :: p => parseRuleFrom fuel p (r.setKey key value)
      | _ => none

def parseRule (rule : Bytes) : Option MatchRule :=
  (parseRuleFrom (rule.length + 1) rule MatchRule.blank).map (fun r => { r with raw := rule })

def matchAdd (m : MatchSet) (rule : Bytes) : Option MatchSet :=
  (parseRule rule).map (fun r => m ++ [r])

def matchRemove (m : MatchSet) (rule : Bytes) : Option MatchSet :=
  (m.findIdx? (fun r => r.raw = rule)).map (KeyedList.swapRemove m)

/-! ## Matching -/

def eqOrNull (constraint field : Option Bytes) : Bool :=
  match constraint with
  | none => true
  | some _ => field = constraint

def nsMatch (ns path : Option Bytes) : Bool :=
  match ns, path with
  | none, _ => true
  | some _, none => false
  | some ns, some path =>
    startsWith ns path &&
      ((path.drop ns.length).head? = none || (path.drop ns.length).head? = some (ch '/') || ns = cstr "/")

def senderMatch (constraint uniq : Option Bytes) (owned : List Bytes) : Bool :=
  match constraint with
  | none => true
  | some s => uniq = some s || owned.contains s

def arg0Match (r : MatchRule) (arg0 : Option Bytes) : Bool :=
  (match r.arg0 with
   | none => true
   | some a => arg0 = some a) &&
  (match r.arg0Namespace with
   | none => true
   | some ns =>
     match arg0 with
     | none => false
     | some a =>
       startsWith ns a &&
         ((a.drop ns.length).head? = none || (a.drop ns.length).head? = some (ch '.')))

structure MatchView where
  type : Option Bytes
  interface : Option Bytes
  member : Option Bytes
  path : Option Bytes
  arg0 : Option Bytes
  sender : Option Bytes
  senderOwned : List Bytes
  dest : Option Bytes
  destOwned : List Bytes

def MatchRule.acceptsSignal (r : MatchRule) (v : MatchView) : Bool :=
  (r.type = none || r.type = some (cstr "signal")) && eqOrNull r.interface v.interface &&
    eqOrNull r.member v.member && eqOrNull r.path v.path && senderMatch r.sender v.sender v.senderOwned &&
    nsMatch r.pathNamespace v.path && arg0Match r v.arg0

def matchSignal (m : MatchSet) (v : MatchView) : Bool :=
  m.any (fun r => r.acceptsSignal v)

def MatchRule.acceptsMessage (r : MatchRule) (v : MatchView) : Bool :=
  eqOrNull r.type v.type && eqOrNull r.interface v.interface && eqOrNull r.member v.member &&
    eqOrNull r.path v.path && senderMatch r.sender v.sender v.senderOwned &&
    senderMatch r.destination v.dest v.destOwned && nsMatch r.pathNamespace v.path && arg0Match r v.arg0

def matchMessage (m : MatchSet) (v : MatchView) : Bool :=
  m.isEmpty || m.any (fun r => r.acceptsMessage v)

/-! ## The live rules -/

inductive RuleOp where
  | add (rule : Bytes)
  | remove (rule : Bytes)

def RuleOp.run (m : MatchSet) : RuleOp → MatchSet
  | .add rule => (matchAdd m rule).getD m
  | .remove rule => (matchRemove m rule).getD m

/-- What a call does to the texts: a rule that parses is added, a removal cancels one addition. -/
def RuleOp.texts (live : List Bytes) : RuleOp → List Bytes
  | .add rule => if (parseRule rule).isSome then rule :: live else live
  | .remove rule => live.erase rule

def ruleSet (ops : List RuleOp) : MatchSet :=
  ops.foldl RuleOp.run []

def liveRules (ops : List RuleOp) : List Bytes :=
  ops.foldl RuleOp.texts []

def textAccepts (v : MatchView) (rule : Bytes) : Bool :=
  (parseRule rule).any fun r => r.acceptsSignal v

structure Stores (m : MatchSet) (live : List Bytes) : Prop where
  texts : (m.map MatchRule.raw).Perm live
  parsed : ∀ r ∈ m, parseRule r.raw = some r

theorem raw_parseRule {rule : Bytes} {r : MatchRule} (h : parseRule rule = some r) : r.raw = rule := by
  obtain ⟨r₀, -, rfl⟩ := Option.map_eq_some_iff.mp h
  rfl

theorem Stores.run {m : MatchSet} {live : List Bytes} (h : Stores m live) (op : RuleOp) :
    Stores (op.run m) (op.texts live) := by
  cases op with
  | add rule =>
    cases hr : parseRule rule with
    | none => simpa [RuleOp.run, RuleOp.texts, matchAdd, hr] using h
    | some r =>
      have hraw := raw_parseRule hr
      simp only [RuleOp.run, RuleOp.texts, matchAdd, hr, Option.map_some, Option.getD_some, Option.isSome_some, if_true]
      refine ⟨?_, ?_⟩
      · rw [map_append, map_singleton, hraw]
        exact (perm_append_singleton _ _).trans (h.texts.cons _)
      · intro s hs
        rcases mem_append.mp hs with hs | hs
        · exact h.parsed s hs
        · rw [mem_singleton.mp hs, hraw]
          exact hr
  | remove rule =>
    simp only [RuleOp.run, RuleOp.texts, matchRemove]
    cases hi : m.findIdx? fun r => r.raw = rule with
    | none =>
      have hnot : rule ∉ live := by
        intro hmem
        obtain ⟨r, hr, hraw⟩ := mem_map.mp (h.texts.mem_iff.mpr hmem)
        have := findIdx?_eq_none_iff.mp hi r hr
        simp [hraw] at this
      simpa [erase_of_not_mem hnot] using h
    | some i =>
      obtain ⟨hlt, hraw, -⟩ := findIdx?_eq_some_iff_getElem.mp hi
      have hraw : m[i].raw = rule := by simpa using hraw
      have hperm := KeyedList.swapRemove_perm hlt
      refine ⟨?_, fun r hr => h.parsed r (KeyedList.mem_of_mem_swapRemove hr)⟩
      -- the rule that goes has the text that is erased
      have htexts : (rule :: (KeyedList.swapRemove m i).map MatchRule.raw).Perm live := by
        rw [← hraw]
        exact (hperm.map MatchRule.raw).trans h.texts
      simpa using htexts.erase rule

theorem stores_ruleSet (ops : List RuleOp) : Stores (ruleSet ops) (liveRules ops) := by
  suffices hall : ∀ m live, Stores m live → Stores (ops.foldl RuleOp.run m) (ops.foldl RuleOp.texts live) from
    hall [] [] ⟨.refl _, nofun⟩
  induction ops with
  | nil => exact fun m live h => h
  | cons op ops ih => exact fun m live h => ih _ _ (h.run op)

theorem Stores.matchSignal {m : MatchSet} {live : List Bytes} (h : Stores m live) (v : MatchView) :
    matchSignal m v = live.any (textAccepts v) := by
  have hrule : ∀ r ∈ m, r.acceptsSignal v = textAccepts v r.raw := by
    intro r hr
    simp [textAccepts, h.parsed r hr]
  rw [← h.texts.any_eq, any_map, Dbus.matchSignal]
  refine Bool.eq_iff_iff.mpr ?_
  rw [any_eq_true, any_eq_true]
  exact exists_congr fun r => and_congr_right fun hr => by rw [hrule r hr]; rfl

/-- A set accepts a signal exactly if a live rule does by itself.  So the verdict is one of the texts in any order, it
stands as long as a live rule accepts the signal, and an addition does not take it back. -/
theorem matches_by_live_rules (ops : List RuleOp) (v : MatchView) :
    (matchSignal (ruleSet ops) v = true ↔ ∃ rule ∈ liveRules ops, textAccepts v rule = true) ∧
      (∀ ops', (liveRules ops').Perm (liveRules ops) → matchSignal (ruleSet ops') v = matchSignal (ruleSet ops) v) ∧
      (∀ rule other, other ∈ (liveRules ops).erase rule → textAccepts v other = true →
        matchSignal (ruleSet (ops ++ [.remove rule])) v = true) ∧
      ∀ rule, matchSignal (ruleSet ops) v = true → matchSignal (ruleSet (ops ++ [.add rule])) v = true := by
  have hverdict : ∀ ops', matchSignal (ruleSet ops') v = (liveRules ops').any (textAccepts v) :=
    fun ops' => (stores_ruleSet ops').matchSignal v
  have hlast : ∀ op, liveRules (ops ++ [op]) = op.texts (liveRules ops) := fun op => foldl_append
  refine ⟨?_, fun ops' hperm => ?_, fun rule other hmem haccepts => ?_, fun rule h => ?_⟩
  · rw [hverdict, any_eq_true]
  · rw [hverdict, hverdict, hperm.any_eq]
  · rw [hverdict, hlast]
    exact any_eq_true.mpr ⟨other, hmem, haccepts⟩
  · rw [hverdict, any_eq_true] at h ⊢
    obtain ⟨other, hmem, haccepts⟩ := h
    refine ⟨other, ?_, haccepts⟩
    rw [hlast, RuleOp.texts]
    split
    · exact mem_cons_of_mem _ hmem
    · exact hmem

end SchemaInit.Dbus
