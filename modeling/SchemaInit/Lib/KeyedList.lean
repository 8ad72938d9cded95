/-
# `SchemaInit.Lib.KeyedList` — C arrays of records, addressed by a key

The source keeps its records in growable arrays, finds one by an identifying
field (a pid, a connection id, a name) and removes one by moving the last
record into its place.  Here such an array is a list, the identifying field a
function `key`, and the operations are

    lookup  key k l    the first record with that key
    update  key k f l  every record with that key replaced by its image
    remove  key k l    every record with that key dropped
    swapRemove l i     v[i] = v[--n]

When the keys are distinct, `lookup` finds the only candidate, and a sum of
per-record amounts changes by one summand (`sum_update`, `sum_remove`): that
is how ledgers over the records are kept.
-/
import Mathlib.Data.List.Nodup
import Mathlib.Data.List.Perm.Basic
import Mathlib.Data.List.Dedup
import Mathlib.Algebra.Order.BigOperators.Group.List
import Mathlib.Algebra.Order.Ring.Nat

namespace KeyedList

open List

variable {α κ : Type*}

/-! ## Removal by moving the last record -/

/-- `v[i] = v[--n]`. -/
def swapRemove (l : List α) (i : Nat) : List α :=
  match l.getLast? with
  | none => []
  | some x => (l.set i x).dropLast

theorem swapRemove_concat (l : List α) (x : α) {i : Nat} (h : i < l.length) : swapRemove (l ++ [x]) i = l.set i x := by
  simp [swapRemove, h]

theorem swapRemove_concat_self (l : List α) (x : α) : swapRemove (l ++ [x]) l.length = l := by
  simp [swapRemove]

/-- Up to order, the record at `i` is the one that goes. -/
theorem swapRemove_perm {l : List α} {i : Nat} (h : i < l.length) : (l[i] :: swapRemove l i).Perm l := by
  obtain ⟨m, x, rfl⟩ : ∃ m x, l = m ++ [x] := by
    refine ⟨l.dropLast, l.getLast (by rintro rfl; simp at h), ?_⟩
    exact (dropLast_append_getLast _).symm
  by_cases hi : i < m.length
  · rw [swapRemove_concat m x hi, getElem_append_left hi]
    have hset : (m.set i x).Perm (x :: m.eraseIdx i) := set_perm_cons_eraseIdx hi x
    have herase : (m[i] :: m.eraseIdx i).Perm m := getElem_cons_eraseIdx_perm hi
    calc (m[i] :: m.set i x).Perm (m[i] :: x :: m.eraseIdx i) := hset.cons _
      _ |>.Perm (x :: m[i] :: m.eraseIdx i) := List.Perm.swap ..
      _ |>.Perm (x :: m) := herase.cons _
      _ |>.Perm (m ++ [x]) := (perm_append_singleton x m).symm
  · have hlast : i = m.length := by simp at h; omega
    subst hlast
    rw [swapRemove_concat_self]
    simpa using (perm_append_singleton x m).symm

theorem mem_of_mem_swapRemove {l : List α} {i : Nat} {a : α} (h : a ∈ swapRemove l i) : a ∈ l := by
  by_cases hi : i < l.length
  · exact (swapRemove_perm hi).subset (mem_cons_of_mem _ h)
  · cases hl : l.getLast? with
    | none => simp [swapRemove, hl] at h
    | some x =>
      have hset : l.set i x = l := set_eq_of_length_le (by omega)
      simp only [swapRemove, hl, hset] at h
      exact (dropLast_sublist l).subset h

/-- The records before `i` stay where they are. -/
theorem take_swapRemove {l : List α} {i : Nat} (h : i < l.length) : (swapRemove l i).take i = l.take i := by
  obtain ⟨m, x, rfl⟩ : ∃ m x, l = m ++ [x] := by
    refine ⟨l.dropLast, l.getLast (by rintro rfl; simp at h), ?_⟩
    exact (dropLast_append_getLast _).symm
  by_cases hi : i < m.length
  · rw [swapRemove_concat m x hi, take_set_of_le (le_refl i), take_append_of_le_length hi.le]
  · have hlast : i = m.length := by simp at h; omega
    subst hlast
    rw [swapRemove_concat_self]
    simp

theorem map_swapRemove {β : Type*} (g : α → β) (l : List α) (i : Nat) :
    (swapRemove l i).map g = swapRemove (l.map g) i := by
  unfold swapRemove
  rw [getLast?_map]
  cases l.getLast? with
  | none => rfl
  | some x => simp

theorem length_swapRemove {l : List α} {i : Nat} (h : i < l.length) : (swapRemove l i).length + 1 = l.length := by
  have := (swapRemove_perm h).length_eq
  simpa using this

/-! ## Lookup, update and removal by key -/

variable [DecidableEq κ] (key : α → κ)

/-- The first record with key `k`. -/
def lookup (k : κ) (l : List α) : Option α :=
  l.find? (fun a => key a = k)

/-- Every record with key `k` replaced by its image under `f`. -/
def update (k : κ) (f : α → α) (l : List α) : List α :=
  l.map (fun a => if key a = k then f a else a)

/-- Every record with key `k` dropped. -/
def remove (k : κ) (l : List α) : List α :=
  l.filter (fun a => key a ≠ k)

/-- The first record with key `k` taken out, the last one in its place. -/
def swapOut (k : κ) (l : List α) : List α :=
  match l.findIdx? (fun a => key a = k) with
  | none => l
  | some i => swapRemove l i

variable {key} {k : κ} {f : α → α} {l : List α} {a b : α}

theorem mem_of_lookup (h : lookup key k l = some a) : a ∈ l := mem_of_find?_eq_some h

theorem key_of_lookup (h : lookup key k l = some a) : key a = k := by
  simpa using find?_some h

theorem lookup_cons (a : α) (l : List α) : lookup key k (a :: l) = if key a = k then some a else lookup key k l := by
  by_cases h : key a = k <;> simp [lookup, h]

theorem lookup_eq_none : lookup key k l = none ↔ k ∉ l.map key := by
  simp [lookup]

theorem exists_lookup (h : k ∈ l.map key) : ∃ a, lookup key k l = some a := by
  cases hl : lookup key k l with
  | none => exact absurd h (lookup_eq_none.mp hl)
  | some a => exact ⟨a, rfl⟩

/-- With distinct keys, a member is found by its key. -/
theorem lookup_of_mem (hd : (l.map key).Nodup) (ha : a ∈ l) : lookup key (key a) l = some a := by
  obtain ⟨b, hb⟩ := exists_lookup (mem_map_of_mem (f := key) ha)
  have hba : b = a := inj_on_of_nodup_map hd (mem_of_lookup hb) ha (key_of_lookup hb)
  rw [hb, hba]

theorem lookup_perm {l' : List α} (hp : l.Perm l') (hd : (l.map key).Nodup) : lookup key k l = lookup key k l' := by
  cases h : lookup key k l with
  | none =>
    have hnot := lookup_eq_none.mp h
    exact (lookup_eq_none.mpr fun hk => hnot ((hp.map key).mem_iff.mpr hk)).symm
  | some a =>
    have hd' : (l'.map key).Nodup := (hp.map key).nodup_iff.mp hd
    have ha := hp.mem_iff.mp (mem_of_lookup h)
    rw [← key_of_lookup h, lookup_of_mem hd' ha]

theorem mem_update : b ∈ update key k f l ↔ ∃ a ∈ l, b = if key a = k then f a else a := by
  simp [update, eq_comm]

/-- An update that a projection does not see. -/
theorem map_update {β : Type*} {g : α → β} (hf : ∀ a, g (f a) = g a) : (update key k f l).map g = l.map g := by
  rw [update, map_map]
  apply map_congr_left
  intro a _
  simp only [Function.comp]
  split
  · exact hf a
  · rfl

theorem lookup_update (hf : ∀ a, key (f a) = key a) (k' : κ) : lookup key k' (update key k f l) =
      (lookup key k' l).map (fun a => if key a = k then f a else a) := by
  induction l with
  | nil => rfl
  | cons a l ih =>
    have hkey : key (if key a = k then f a else a) = key a := by
      split
      · exact hf a
      · rfl
    simp only [lookup, update, map_cons, find?_cons, hkey] at ih ⊢
    by_cases ha : key a = k'
    · simp [ha]
    · simpa [ha] using ih

theorem lookup_update_self (hf : ∀ a, key (f a) = key a) (h : lookup key k l = some a) :
    lookup key k (update key k f l) = some (f a) := by
  simp [lookup_update hf, h, key_of_lookup h]

theorem lookup_update_of_ne (hf : ∀ a, key (f a) = key a) {k' : κ} (hne : k' ≠ k) :
    lookup key k' (update key k f l) = lookup key k' l := by
  rw [lookup_update hf]
  cases h : lookup key k' l with
  | none => rfl
  | some a =>
    have hak : key a ≠ k := by rw [key_of_lookup h]; exact hne
    simp [hak]

/-- Only the record with key `k` matters. -/
theorem update_congr {g : α → α} (hd : (l.map key).Nodup) (h : lookup key k l = some a) (hfg : f a = g a) :
    update key k f l = update key k g l := by
  apply map_congr_left
  intro b hb
  split
  case isTrue hk =>
    have hba : lookup key k l = some b := hk ▸ lookup_of_mem hd hb
    rw [h] at hba
    cases hba
    exact hfg
  · rfl

theorem map_update_of_lookup {β : Type*} {g : α → β} (hd : (l.map key).Nodup) (h : lookup key k l = some a)
    (hf : g (f a) = g a) : (update key k f l).map g = l.map g := by
  rw [update, map_map]
  apply map_congr_left
  intro b hb
  simp only [Function.comp]
  split
  case isTrue hk =>
    have hba : lookup key k l = some b := hk ▸ lookup_of_mem hd hb
    rw [h] at hba
    cases hba
    exact hf
  · rfl

theorem update_of_not_mem (h : k ∉ l.map key) : update key k f l = l := by
  conv_rhs => rw [← map_id l]
  apply map_congr_left
  intro a ha
  have : key a ≠ k := fun hk => h (hk ▸ mem_map_of_mem ha)
  simp [this]

theorem swapOut_of_not_mem (h : k ∉ l.map key) : swapOut key k l = l := by
  have hnone : l.findIdx? (fun a => key a = k) = none := by
    rw [findIdx?_eq_none_iff]
    intro a ha
    have hne : key a ≠ k := fun heq => h (heq ▸ mem_map_of_mem ha)
    simpa using hne
  simp [swapOut, hnone]

section

variable (hd : (l.map key).Nodup)
include hd

/-- The record goes, the others stay in some order. -/
theorem swapOut_perm (h : lookup key k l = some a) : (a :: swapOut key k l).Perm l := by
  unfold swapOut
  cases hidx : l.findIdx? (fun a => key a = k) with
  | none =>
    have := findIdx?_eq_none_iff.mp hidx a (mem_of_lookup h)
    simp [key_of_lookup h] at this
  | some i =>
    obtain ⟨hlt, hi, _⟩ := findIdx?_eq_some_iff_getElem.mp hidx
    have hfound := lookup_of_mem hd (getElem_mem hlt)
    rw [of_decide_eq_true hi, h] at hfound
    cases hfound
    exact swapRemove_perm hlt

theorem swapOut_keys_perm (h : k ∈ l.map key) : (k :: (swapOut key k l).map key).Perm (l.map key) := by
  obtain ⟨a, ha⟩ := exists_lookup h
  have hperm := (swapOut_perm hd ha).map key
  rwa [map_cons, key_of_lookup ha] at hperm

theorem nodup_map_swapOut : ((swapOut key k l).map key).Nodup := by
  by_cases h : k ∈ l.map key
  · exact (nodup_cons.mp ((swapOut_keys_perm hd h).nodup_iff.mpr hd)).2
  · rwa [swapOut_of_not_mem h]

theorem lookup_swapOut (k' : κ) : lookup key k' (swapOut key k l) = if k' = k then none else lookup key k' l := by
  by_cases hk : k ∈ l.map key
  · obtain ⟨a, ha⟩ := exists_lookup hk
    have hperm := swapOut_perm hd ha
    have hnot := (nodup_cons.mp ((swapOut_keys_perm hd hk).nodup_iff.mpr hd)).1
    split
    case isTrue heq => rwa [heq, lookup_eq_none]
    case isFalse hne =>
      have hcons : key a ≠ k' := by rw [key_of_lookup ha]; exact Ne.symm hne
      rw [← lookup_perm hperm ((hperm.map key).nodup_iff.mpr hd), lookup_cons, if_neg hcons]
  · rw [swapOut_of_not_mem hk]
    split
    case isTrue heq => rwa [heq, lookup_eq_none]
    · rfl

end

/-- A change of the records that keeps their keys commutes with taking one out. -/
theorem swapOut_map (hf : ∀ a, key (f a) = key a) : swapOut key k (l.map f) = (swapOut key k l).map f := by
  unfold swapOut
  rw [findIdx?_map]
  have hp : (fun a => decide (key a = k)) ∘ f = fun a => decide (key a = k) := by
    funext a
    simp [hf]
  rw [hp]
  cases l.findIdx? (fun a => key a = k) with
  | none => rfl
  | some i => exact (map_swapRemove f l i).symm

/-- A change of a record does not matter once it goes. -/
theorem swapOut_update (hd : (l.map key).Nodup) (hf : ∀ a, key (f a) = key a) :
    swapOut key k (update key k f l) = swapOut key k l := by
  by_cases hk : k ∈ l.map key
  · have hkey : ∀ a, key (if key a = k then f a else a) = key a := by
      intro a
      split
      · exact hf a
      · rfl
    have hnot := (nodup_cons.mp ((swapOut_keys_perm hd hk).nodup_iff.mpr hd)).1
    rw [update, swapOut_map hkey]
    exact update_of_not_mem hnot
  · rw [update_of_not_mem hk]

theorem mem_remove : a ∈ remove key k l ↔ a ∈ l ∧ key a ≠ k := by
  simp [remove]

theorem remove_of_not_mem (h : k ∉ l.map key) : remove key k l = l := by
  apply filter_eq_self.mpr
  intro a ha
  have : key a ≠ k := fun hk => h (hk ▸ mem_map_of_mem ha)
  simpa using this

theorem nodup_map_remove (h : (l.map key).Nodup) : ((remove key k l).map key).Nodup :=
  h.sublist (filter_sublist.map key)

/-- A change of the records that keeps their keys. -/
theorem lookup_map (hf : ∀ a ∈ l, key (f a) = key a) : lookup key k (l.map f) = (lookup key k l).map f := by
  induction l with
  | nil => rfl
  | cons a l ih =>
    have hl := ih (fun b hb => hf b (mem_cons_of_mem _ hb))
    rw [map_cons, lookup_cons, lookup_cons, hf a mem_cons_self, hl]
    split <;> rfl

/-- What is derived from the records, each under its record's key, is there once
for each key. -/
theorem filter_filterMap {β : Type*} {g : α → Option β} {key' : β → κ} (hd : (l.map key).Nodup)
    (hg : ∀ a ∈ l, ∀ b, g a = some b → key' b = key a) (k : κ) :
    (l.filterMap g).filter (fun b => key' b = k) = ((lookup key k l).bind g).toList := by
  induction l with
  | nil => rfl
  | cons a l ih =>
    obtain ⟨hnot, hd'⟩ := nodup_cons.mp hd
    have hl := ih hd' (fun b hb => hg b (mem_cons_of_mem _ hb))
    have hkey := hg a mem_cons_self
    rw [lookup_cons]
    by_cases hk : key a = k
    · have hnone : lookup key k l = none := lookup_eq_none.mpr (hk ▸ hnot)
      rw [hnone] at hl
      cases hga : g a with
      | none => simpa [filterMap_cons, hga, hk] using hl
      | some b => simpa [filterMap_cons, hga, hk, hkey b hga] using hl
    · cases hga : g a with
      | none => simpa [filterMap_cons, hga, hk] using hl
      | some b => simpa [filterMap_cons, hga, hk, hkey b hga] using hl

/-! ## Sums over the records -/

omit [DecidableEq κ] in
theorem le_sum (g : α → Nat) (ha : a ∈ l) : g a ≤ (l.map g).sum :=
  single_le_sum (fun _ _ => Nat.zero_le _) _ (mem_map_of_mem ha)

/-- A ledger entry changes by one summand when one record changes. -/
theorem sum_update (hd : (l.map key).Nodup) (g : α → Nat) (h : lookup key k l = some a) :
    ((update key k f l).map g).sum + g a = (l.map g).sum + g (f a) := by
  induction l with
  | nil => simp [lookup] at h
  | cons b l ih =>
    rw [map_cons, nodup_cons] at hd
    by_cases hb : key b = k
    · have hab : b = a := by simpa [lookup, hb] using h
      have hrest : update key k f l = l := update_of_not_mem (hb ▸ hd.1)
      have hcons : update key k f (b :: l) = f b :: l := by
        simp only [update, map_cons, hb, if_true, List.cons.injEq, true_and]
        exact hrest
      rw [hcons, hab]
      simp only [map_cons, sum_cons]
      omega
    · have hl : lookup key k l = some a := by simpa [lookup, hb] using h
      have hcons : update key k f (b :: l) = b :: update key k f l := by
        simp [update, hb]
      have := ih hd.2 hl
      rw [hcons]
      simp only [map_cons, sum_cons]
      omega

/-- With distinct keys, removal takes one record. -/
theorem cons_remove_perm (hd : (l.map key).Nodup) (h : lookup key k l = some a) : (a :: remove key k l).Perm l := by
  induction l with
  | nil => simp [lookup] at h
  | cons b l ih =>
    rw [map_cons, nodup_cons] at hd
    by_cases hb : key b = k
    · have hab : b = a := by simpa [lookup, hb] using h
      have hrest : remove key k l = l := remove_of_not_mem (hb ▸ hd.1)
      have hcons : remove key k (b :: l) = l := by
        simpa [remove, hb] using hrest
      rw [hcons, hab]
    · have hl : lookup key k l = some a := by simpa [lookup, hb] using h
      have hcons : remove key k (b :: l) = b :: remove key k l := by
        simp [remove, hb]
      rw [hcons]
      exact (List.Perm.swap b a _).trans ((ih hd.2 hl).cons b)

/-- A ledger entry loses one summand when one record goes. -/
theorem sum_remove (hd : (l.map key).Nodup) (g : α → Nat) (h : lookup key k l = some a) :
    ((remove key k l).map g).sum + g a = (l.map g).sum := by
  have := ((cons_remove_perm hd h).map g).sum_eq
  rw [map_cons, sum_cons] at this
  omega

end KeyedList
