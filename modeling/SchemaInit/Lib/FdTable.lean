/-
# `SchemaInit.Lib.FdTable` — a process's descriptor table

A table maps descriptor numbers to what they refer to.  The numbers are C
`int`s, so `-1` is a number like any other that is never open.  A new
descriptor takes the lowest free number below the limit (POSIX `open`, `dup`,
`recvmsg` with `SCM_RIGHTS`), and fails when there is none.  Every open number
lies below the limit: the table carries that as a field.
-/
import Mathlib.Data.Set.Function
import Mathlib.Data.Finset.Card
import Mathlib.Data.Finset.Image
import Mathlib.Data.Finset.Range

universe u

/-- Which descriptor numbers are open, and what each refers to. -/
structure FdTable (α : Type u) where
  get : Int → Option α
  limit : Nat
  inRange : ∀ fd a, get fd = some a → 0 ≤ fd ∧ fd < limit

namespace FdTable

variable {α : Type u}

/-- The table of a process with no descriptor open. -/
def empty (limit : Nat) : FdTable α where
  get := fun _ => none
  limit := limit
  inRange := fun _ _ h => nomatch h

@[simp] theorem get_empty (limit : Nat) (fd : Int) : (empty (α := α) limit).get fd = none := rfl

/-- `close(fd)`: the number is free afterwards.  A number that is not open is
left alone (`EBADF`). -/
def close (t : FdTable α) (fd : Int) : FdTable α where
  get := fun n => if n = fd then none else t.get n
  limit := t.limit
  inRange := by
    intro n a h
    split at h
    · cases h
    · exact t.inRange n a h

variable (t : FdTable α)

theorem get_close (fd n : Int) : (t.close fd).get n = if n = fd then none else t.get n := rfl

@[simp] theorem get_close_self (fd : Int) : (t.close fd).get fd = none := by
  simp [get_close]

theorem get_close_of_ne {fd n : Int} (h : n ≠ fd) : (t.close fd).get n = t.get n := by
  simp [get_close, h]

theorem get_close_or (fd n : Int) : (t.close fd).get n = none ∨ (t.close fd).get n = t.get n := by
  rw [get_close]
  exact ite_eq_or_eq ..

@[simp] theorem limit_close (fd : Int) : (t.close fd).limit = t.limit := rfl

theorem get_of_get_close {t : FdTable α} {fd n : Int} {a : α} (h : (t.close fd).get n = some a) :
    t.get n = some a ∧ n ≠ fd := by
  rw [get_close] at h
  split at h
  · cases h
  · exact ⟨h, by assumption⟩

/-- The first of the `k` numbers from `n` on that is free. -/
def lowestFree (get : Int → Option α) : Nat → Nat → Option Nat
  | 0, _ => none
  | k + 1, n => if (get n).isNone then some n else lowestFree get k (n + 1)

theorem lowestFree_spec {get : Int → Option α} :
    ∀ {k n m : Nat}, lowestFree get k n = some m → get m = none ∧ n ≤ m ∧ m < n + k
  | 0, _, _, h => nomatch h
  | k + 1, n, m, h => by
    rw [lowestFree] at h
    split at h
    case isTrue hfree =>
      cases h
      exact ⟨Option.isNone_iff_eq_none.mp hfree, le_refl _, by omega⟩
    · obtain ⟨hfree, hle, hlt⟩ := lowestFree_spec h
      exact ⟨hfree, by omega, by omega⟩

/-- A number that is free and below the limit now refers to `a`. -/
def insert (t : FdTable α) (fd : Int) (a : α) (h : 0 ≤ fd ∧ fd < t.limit) : FdTable α where
  get := fun n => if n = fd then some a else t.get n
  limit := t.limit
  inRange := by
    intro n b hb
    split at hb
    case isTrue hn => exact hn ▸ h
    · exact t.inRange n b hb

/-- A new descriptor for `a`: the lowest free number, or none at the limit. -/
def alloc (t : FdTable α) (a : α) : Option (Int × FdTable α) :=
  match h : lowestFree t.get t.limit 0 with
  | none => none
  | some n =>
    some (n, t.insert n a ⟨by omega, by have := (lowestFree_spec h).2.2; omega⟩)

/-- What a successful allocation did: it took a free number, and every other
number is as it was. -/
theorem alloc_spec {t t' : FdTable α} {a : α} {fd : Int} (h : t.alloc a = some (fd, t')) :
    t.get fd = none ∧ 0 ≤ fd ∧ t'.limit = t.limit ∧ ∀ n, t'.get n = if n = fd then some a else t.get n := by
  unfold alloc at h
  split at h
  · cases h
  case h_2 n hn =>
    cases h
    exact ⟨(lowestFree_spec hn).1, by omega, rfl, fun _ => rfl⟩

/-- Distinct open numbers are no more than the limit. -/
theorem length_le_limit {l : List Int} (hl : l.Nodup) (hopen : ∀ fd ∈ l, (t.get fd).isSome) : l.length ≤ t.limit := by
  have hsub : l.toFinset ⊆ (Finset.range t.limit).image (fun n : Nat => (n : Int)) := by
    intro fd hfd
    obtain ⟨a, ha⟩ := Option.isSome_iff_exists.mp (hopen fd (List.mem_toFinset.mp hfd))
    have hr := t.inRange fd a ha
    exact Finset.mem_image.mpr ⟨fd.toNat, Finset.mem_range.mpr (by omega), by omega⟩
  calc l.length = l.toFinset.card := (List.toFinset_card_of_nodup hl).symm
    _ ≤ ((Finset.range t.limit).image (fun n : Nat => (n : Int))).card := Finset.card_le_card hsub
    _ ≤ (Finset.range t.limit).card := Finset.card_image_le
    _ = t.limit := Finset.card_range _

end FdTable
