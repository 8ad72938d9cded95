/-
# `SchemaInit.Dbus.ActivationEnv` — `UpdateActivationEnvironment`

The loop over the `a{ss}` argument checks and sets one entry at a time, so what stands
before a bad key is set when the call is refused.  And `sdbus_activate_env_set` replaces
the first entry of a key: of an environment that has a key twice, as `environ` may,
the second stays (`environment_half_set` has both).

`all_or_nothing_iff` says when the call is as good as its word.  The proof is about
`envPut`, one entry that is set, and how two of them compose.
-/
import SchemaInit.Dbus.Handle

namespace SchemaInit.Dbus

open List

variable {env : List Bytes} {e k k' v v' : Bytes} {ps : List (Bytes × Bytes)}

def envEntry (key val : Bytes) : Bytes :=
  key ++ [ch '='] ++ val

def hasKey (key e : Bytes) : Bool :=
  startsWith (key ++ [ch '=']) e

def goodKey (key : Bytes) : Bool :=
  key ≠ [] && !key.contains (ch '=')

/-- The environment with the entry set: the first of the key is replaced, or a new one stands last. -/
def envPut (env : List Bytes) (key val : Bytes) : List Bytes :=
  match env.findIdx? (hasKey key) with
  | some i => env.set i (envEntry key val)
  | none => env ++ [envEntry key val]

theorem activateEnvSet_eq (env : List Bytes) (key val : Bytes) :
    activateEnvSet env key val = if goodKey key then some (envPut env key val) else none := by
  unfold activateEnvSet envPut
  by_cases hbad : key = [] ∨ key.contains (ch '=') = true
  · have hgood : goodKey key = false := by
      rcases hbad with rfl | hbad
      · rfl
      · simp only [goodKey, hbad, Bool.not_true, Bool.and_false]
    rw [if_pos hbad, hgood]
    rfl
  · have hgood : goodKey key = true := by simpa [goodKey] using hbad
    rw [if_neg hbad, hgood]
    show (match env.findIdx? (hasKey key) with | some i => _ | none => _) = _
    cases env.findIdx? (hasKey key) with
    | none => rfl
    | some i => rfl

/-! ## Keys -/

theorem hasKey_envEntry (k v : Bytes) : hasKey k (envEntry k v) = true :=
  isPrefixOf_iff_prefix.mpr (prefix_append _ _)

theorem key_of_hasKey (hk : goodKey k = true) (h : hasKey k e = true) : e.takeWhile (fun b => b ≠ ch '=') = k := by
  obtain ⟨rest, rfl⟩ := isPrefixOf_iff_prefix.mp h
  have hall : ∀ b ∈ k, decide (b ≠ ch '=') = true := by
    simp only [goodKey, Bool.and_eq_true, Bool.not_eq_true', contains_eq_mem, decide_eq_false_iff_not] at hk
    intro b hb
    exact decide_eq_true fun heq => hk.2 (heq ▸ hb)
  rw [append_assoc, takeWhile_append_of_pos hall]
  simp

theorem hasKey_other (hk : goodKey k = true) (hk' : goodKey k' = true) (hne : k' ≠ k)
    (h : hasKey k e = true) : hasKey k' e = false := by
  cases h' : hasKey k' e with
  | false => rfl
  | true => exact absurd ((key_of_hasKey hk' h').symm.trans (key_of_hasKey hk h)) hne

/-! ## One entry -/

@[simp] theorem envPut_nil (k v : Bytes) : envPut [] k v = [envEntry k v] := rfl

theorem envPut_cons (e : Bytes) (env : List Bytes) (k v : Bytes) :
    envPut (e :: env) k v = if hasKey k e then envEntry k v :: env else e :: envPut env k v := by
  unfold envPut
  rw [findIdx?_cons]
  cases hasKey k e with
  | true => rfl
  | false =>
    simp only [Bool.false_eq_true, if_false]
    cases env.findIdx? (hasKey k) with
    | none => rfl
    | some i => rfl

theorem filter_envPut (hk : goodKey k = true) (hk' : goodKey k' = true) (env : List Bytes) (v : Bytes) :
    (envPut env k v).filter (hasKey k') =
      if k' = k then envEntry k v :: (env.filter (hasKey k')).tail else env.filter (hasKey k') := by
  have hself : hasKey k (envEntry k v) = true := hasKey_envEntry k v
  induction env with
  | nil =>
    by_cases heq : k' = k
    · simp [heq, hself]
    · simp [heq, hasKey_other hk hk' heq hself]
  | cons e env ih =>
    rw [envPut_cons]
    by_cases heq : k' = k
    · subst heq
      cases he : hasKey k' e with
      | true => simp [hself, he]
      | false => simpa [he] using ih
    · rw [if_neg heq] at ih ⊢
      cases he : hasKey k e with
      | true => simp [hasKey_other hk hk' heq hself, hasKey_other hk hk' heq he]
      | false => simp [filter_cons, ih]

theorem place_envPut {i : Nat} (h : env[i]? = some e) (hk : hasKey k e = false) (v : Bytes) :
    (envPut env k v)[i]? = some e := by
  induction env generalizing i with
  | nil => simp at h
  | cons x env ih =>
    rw [envPut_cons]
    cases i with
    | zero =>
      obtain rfl : x = e := by simpa using h
      simp [hk]
    | succ i =>
      split
      · exact h
      · exact ih h

theorem mem_envPut (h : e ∈ envPut env k v) : e = envEntry k v ∨ e ∈ env := by
  induction env with
  | nil => exact .inl (by simpa using h)
  | cons x env ih =>
    rw [envPut_cons] at h
    split at h
    · exact (mem_cons.mp h).imp_right (mem_cons_of_mem x)
    · rcases mem_cons.mp h with rfl | h
      · exact .inr (mem_cons_self ..)
      · exact (ih h).imp_right (mem_cons_of_mem x)

theorem envPut_same (h : env.find? (hasKey k) = some (envEntry k v)) : envPut env k v = env := by
  induction env with
  | nil => simp at h
  | cons x env ih =>
    rw [envPut_cons]
    cases hx : hasKey k x with
    | true =>
      obtain rfl : x = envEntry k v := by simpa [hx] using h
      rfl
    | false => simp [ih (by simpa [hx] using h)]

theorem envPut_envPut (env : List Bytes) (k v v' : Bytes) : envPut (envPut env k v) k v' = envPut env k v' := by
  induction env with
  | nil => simp [envPut_cons, hasKey_envEntry]
  | cons x env ih =>
    rw [envPut_cons, envPut_cons]
    cases hx : hasKey k x with
    | true => simp [envPut_cons, hasKey_envEntry]
    | false => simp [envPut_cons, hx, ih]

theorem envPut_comm (hk : goodKey k = true) (hk' : goodKey k' = true) (hne : k' ≠ k)
    (hthere : (env.find? (hasKey k)).isSome = true) :
    envPut (envPut env k v) k' v' = envPut (envPut env k' v') k v := by
  have hnew : hasKey k' (envEntry k v) = false := hasKey_other hk hk' hne (hasKey_envEntry k v)
  have hnew' : hasKey k (envEntry k' v') = false := hasKey_other hk' hk (Ne.symm hne) (hasKey_envEntry k' v')
  induction env with
  | nil => simp at hthere
  | cons x env ih =>
    rw [envPut_cons, envPut_cons x env k']
    cases hx : hasKey k x with
    | true =>
      have hx' : hasKey k' x = false := hasKey_other hk hk' hne hx
      simp [hx', envPut_cons, hnew, hx]
    | false =>
      have hrest : (env.find? (hasKey k)).isSome = true := by simpa [hx] using hthere
      cases hx' : hasKey k' x with
      | true => simp [envPut_cons, hx', hnew']
      | false => simp [envPut_cons, hx, hx', ih hrest]

/-! ## The call -/

def lastOf (k : Bytes) : List (Bytes × Bytes) → Option Bytes
  | [] => none
  | p :: ps => (lastOf k ps).or (if p.1 = k then some p.2 else none)

def goodOnes (ps : List (Bytes × Bytes)) : List (Bytes × Bytes) :=
  ps.takeWhile fun p => goodKey p.1

def envPuts (env : List Bytes) (ps : List (Bytes × Bytes)) : List Bytes :=
  ps.foldl (fun env p => envPut env p.1 p.2) env

theorem envSetAll_eq (env : List Bytes) (ps : List (Bytes × Bytes)) :
    Broker.envSetAll env ps = (envPuts env (goodOnes ps), ps.all fun p => goodKey p.1) := by
  induction ps generalizing env with
  | nil => rfl
  | cons p ps ih =>
    rw [Broker.envSetAll, activateEnvSet_eq]
    cases hp : goodKey p.1 with
    | true => simp [ih, goodOnes, hp, envPuts]
    | false => simp [goodOnes, hp, envPuts]

theorem good_goodOnes (ps : List (Bytes × Bytes)) : ∀ p ∈ goodOnes ps, goodKey p.1 = true := by
  intro p hp
  exact mem_takeWhile_imp (p := fun q : Bytes × Bytes => goodKey q.1) hp

theorem lastOf_cons_of_some {p : Bytes × Bytes} (h : lastOf k ps = some v) : lastOf k (p :: ps) = some v := by
  rw [lastOf, h]
  rfl

theorem mem_of_lastOf (h : lastOf k ps = some v) : ∃ p ∈ ps, p.1 = k := by
  induction ps with
  | nil => cases h
  | cons p ps ih =>
    by_cases heq : p.1 = k
    · exact ⟨p, mem_cons_self .., heq⟩
    · obtain ⟨q, hq, hk⟩ := ih (by simpa [lastOf, heq] using h)
      exact ⟨q, mem_cons_of_mem _ hq, hk⟩

theorem lastOf_of_mem {p : Bytes × Bytes} (h : p ∈ ps) : ∃ v, lastOf p.1 ps = some v := by
  induction ps with
  | nil => cases h
  | cons q ps ih =>
    rcases mem_cons.mp h with rfl | h
    · cases hrest : lastOf p.1 ps with
      | some v => exact ⟨v, lastOf_cons_of_some hrest⟩
      | none => exact ⟨p.2, by simp [lastOf, hrest]⟩
    · obtain ⟨v, hv⟩ := ih h
      exact ⟨v, lastOf_cons_of_some hv⟩

section

variable (hgood : ∀ p ∈ ps, goodKey p.1 = true)
include hgood

theorem filter_envPuts (hk : goodKey k = true) (env : List Bytes) : (envPuts env ps).filter (hasKey k) =
      match lastOf k ps with
      | some v => envEntry k v :: (env.filter (hasKey k)).tail
      | none => env.filter (hasKey k) := by
  induction ps generalizing env with
  | nil => rfl
  | cons p ps ih =>
    have hp := hgood p (mem_cons_self ..)
    rw [envPuts, foldl_cons, ← envPuts, ih (fun q hq => hgood q (mem_cons_of_mem _ hq)), filter_envPut hp hk, lastOf]
    cases lastOf k ps with
    | some v => by_cases heq : k = p.1 <;> simp [heq]
    | none => by_cases heq : k = p.1 <;> simp [heq, Ne.symm]

theorem envPuts_overwritten (hk : goodKey k = true) (hlater : (lastOf k ps).isSome = true)
    (hthere : (env.find? (hasKey k)).isSome = true) : envPuts (envPut env k v) ps = envPuts env ps := by
  induction ps generalizing env with
  | nil => cases hlater
  | cons p ps ih =>
    have hp := hgood p (mem_cons_self ..)
    show envPuts (envPut (envPut env k v) p.1 p.2) ps = envPuts (envPut env p.1 p.2) ps
    by_cases heq : p.1 = k
    · rw [heq, envPut_envPut]
    · rw [envPut_comm hk hp heq hthere]
      refine ih (fun q hq => hgood q (mem_cons_of_mem _ hq)) (by simpa [lastOf, heq] using hlater) ?_
      rw [← head?_filter, filter_envPut hp hk, if_neg (Ne.symm heq), head?_filter]
      exact hthere

theorem envPuts_same
    (h : ∀ k v, lastOf k ps = some v → env.find? (hasKey k) = some (envEntry k v)) : envPuts env ps = env := by
  induction ps with
  | nil => rfl
  | cons p ps ih =>
    have hp := hgood p (mem_cons_self ..)
    have hrest := ih (fun q hq => hgood q (mem_cons_of_mem _ hq)) fun k v hv => h k v (lastOf_cons_of_some hv)
    show envPuts (envPut env p.1 p.2) ps = env
    cases hlast : lastOf p.1 ps with
    | some w =>
      rw [envPuts_overwritten (fun q hq => hgood q (mem_cons_of_mem _ hq)) hp (by simp [hlast])
        (by simp [h p.1 w (lastOf_cons_of_some hlast)])]
      exact hrest
    | none =>
      rw [envPut_same (h p.1 p.2 (by simp [lastOf, hlast]))]
      exact hrest

end

theorem place_envPuts {i : Nat} (h : env[i]? = some e) (hk : ∀ p ∈ ps, hasKey p.1 e = false) :
    (envPuts env ps)[i]? = some e := by
  induction ps generalizing env with
  | nil => exact h
  | cons p ps ih =>
    exact ih (place_envPut h (hk p (mem_cons_self ..)) p.2) fun q hq => hk q (mem_cons_of_mem _ hq)

theorem mem_envPuts (h : e ∈ envPuts env ps) : e ∈ env ∨ ∃ p ∈ ps, hasKey p.1 e = true := by
  induction ps generalizing env with
  | nil => exact .inl h
  | cons p ps ih =>
    rcases ih h with h | ⟨q, hq, hkey⟩
    · rcases mem_envPut h with rfl | h
      · exact .inr ⟨p, mem_cons_self .., hasKey_envEntry _ _⟩
      · exact .inl h
    · exact .inr ⟨q, mem_cons_of_mem _ hq, hkey⟩

/-- A refused call changes nothing; after a good one each key has one entry, with the value given last, and all
other entries stand where they stood. -/
structure AllOrNothing (env : List Bytes) (ps : List (Bytes × Bytes)) (r : List Bytes × Bool) : Prop where
  refused : r.2 = false → r.1 = env
  given : r.2 = true → ∀ k v, lastOf k ps = some v → r.1.filter (hasKey k) = [envEntry k v]
  kept : r.2 = true → ∀ (i : Nat) (e : Bytes), env[i]? = some e → (∀ p ∈ ps, hasKey p.1 e = false) → r.1[i]? = some e
  others : r.2 = true → ∀ e ∈ r.1, e ∈ env ∨ ∃ p ∈ ps, hasKey p.1 e = true

/-- `UpdateActivationEnvironment` is all or nothing exactly if all keys are good and none of them stands twice in the
environment, or what is given before the first bad key stands there already. -/
theorem all_or_nothing_iff (env : List Bytes) (call : DriverCall) (ps : List (Bytes × Bytes)) :
    AllOrNothing env ps (Broker.newEnvironment env { call with signature := cstr "a\x7bss\x7d", args := [.dict ps] }) ↔
      if ps.all fun p => goodKey p.1 then ∀ p ∈ ps, (env.filter (hasKey p.1)).length ≤ 1
      else ∀ k v, lastOf k (goodOnes ps) = some v → env.find? (hasKey k) = some (envEntry k v) := by
  have hcall : Broker.newEnvironment env { call with signature := cstr "a\x7bss\x7d", args := [.dict ps] } =
      (envPuts env (goodOnes ps), ps.all fun p => goodKey p.1) := envSetAll_eq env ps
  rw [hcall]
  cases hall : ps.all fun p => goodKey p.1 with
  | true =>
    have hgood : ∀ p ∈ ps, goodKey p.1 = true := all_eq_true.mp hall
    have hones : goodOnes ps = ps := takeWhile_eq_self_iff.mpr hgood
    have hfilter : ∀ k v, lastOf k ps = some v →
        (envPuts env ps).filter (hasKey k) = envEntry k v :: (env.filter (hasKey k)).tail := by
      intro k v hv
      obtain ⟨p, hp, rfl⟩ := mem_of_lastOf hv
      rw [filter_envPuts hgood (hgood p hp), hv]
    rw [hones, if_pos rfl]
    constructor
    · intro h p hp
      obtain ⟨v, hv⟩ := lastOf_of_mem hp
      have hone := (hfilter p.1 v hv).symm.trans (h.given rfl p.1 v hv)
      have hnil : (env.filter (hasKey p.1)).tail = [] := (List.cons.inj hone).2
      have hlen := congrArg List.length hnil
      rw [length_tail, length_nil] at hlen
      omega
    · intro h
      refine ⟨nofun, fun _ k v hv => ?_, fun _ i e hi hk => place_envPuts hi hk, fun _ e he => mem_envPuts he⟩
      obtain ⟨p, hp, rfl⟩ := mem_of_lastOf hv
      have hnil : (env.filter (hasKey p.1)).tail = [] := by
        rw [← length_eq_zero_iff, length_tail]
        exact Nat.sub_eq_zero_of_le (h p hp)
      rw [hfilter p.1 v hv, hnil]
  | false =>
    have hgood := good_goodOnes ps
    rw [if_neg Bool.false_ne_true]
    constructor
    · intro h k v hv
      obtain ⟨p, hp, rfl⟩ := mem_of_lastOf hv
      have hsame : envPuts env (goodOnes ps) = env := h.refused rfl
      have hfilter := filter_envPuts hgood (hgood p hp) env
      rw [hsame, hv] at hfilter
      rw [← head?_filter, hfilter]
      rfl
    · exact fun h => ⟨fun _ => envPuts_same hgood h, nofun, nofun, nofun⟩

/-- The good entry before the bad one is set; and a key that stood twice still does. -/
theorem environment_half_set :
    ¬ AllOrNothing [cstr "A=1"] [(cstr "A", cstr "2"), ([], cstr "x")]
        (Broker.envSetAll [cstr "A=1"] [(cstr "A", cstr "2"), ([], cstr "x")]) ∧
      ¬ AllOrNothing [cstr "A=1", cstr "A=2"] [(cstr "A", cstr "3")]
        (Broker.envSetAll [cstr "A=1", cstr "A=2"] [(cstr "A", cstr "3")]) := by
  refine ⟨fun h => ?_, fun h => ?_⟩
  · exact absurd (h.refused (by decide)) (by decide)
  · exact absurd (h.given (by decide) (cstr "A") (cstr "3") (by decide)) (by decide)

end SchemaInit.Dbus
