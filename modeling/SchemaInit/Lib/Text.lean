/-
# `SchemaInit.Lib.Text` — trimming and parting texts

Line-based formats are read with the same few operations in C and in Python:
blanks are taken off both ends, and a text is parted at the first occurrence of
a separator (splitting at every occurrence is `List.splitOn`).  They are stated
here over arbitrary element types, with the predicate for "blank" as a
parameter, since the two languages do not agree on it.
-/
import Mathlib.Data.List.DropRight
import Mathlib.Algebra.Order.Ring.Int

namespace Text

open List

variable {α : Type*}

/-- The text without blanks at its ends. -/
def trim (blank : α → Bool) (l : List α) : List α :=
  (l.dropWhile blank).rdropWhile blank

theorem trim_subset (blank : α → Bool) (l : List α) : trim blank l ⊆ l :=
  fun _ ha => (dropWhile_sublist blank).subset ((List.rdropWhile_prefix blank _).subset ha)

theorem dropWhile_congr {p q : α → Bool} {l : List α} (h : ∀ a ∈ l, p a = q a) : l.dropWhile p = l.dropWhile q := by
  induction l with
  | nil => rfl
  | cons a l ih =>
    rw [dropWhile_cons, dropWhile_cons, h a mem_cons_self,
      ih fun b hb => h b (mem_cons_of_mem _ hb)]

/-- Two notions of "blank" that agree on the text trim it alike. -/
theorem trim_congr {p q : α → Bool} {l : List α} (h : ∀ a ∈ l, p a = q a) : trim p l = trim q l := by
  have hrest : ∀ a ∈ (l.dropWhile q).reverse, p a = q a := fun a ha =>
    h a ((dropWhile_sublist q).subset (mem_reverse.mp ha))
  rw [trim, trim, dropWhile_congr h, List.rdropWhile, List.rdropWhile, dropWhile_congr hrest]

/-- A text without blanks is trimmed. -/
theorem trim_eq_self {blank : α → Bool} {l : List α} (h : ∀ a ∈ l, blank a = false) : trim blank l = l := by
  have hfront : l.dropWhile blank = l := by
    rw [dropWhile_eq_self_iff]
    intro hl
    simp [h _ (getElem_mem hl)]
  rw [trim, hfront, rdropWhile_eq_self_iff]
  intro hl
  simp [h _ (getLast_mem hl)]

variable [DecidableEq α]

/-- What stands before the first `sep`, and what stands behind it; all and nothing
if there is none. -/
def partition (sep : α) (l : List α) : List α × List α :=
  (l.takeWhile (· ≠ sep), (l.dropWhile (· ≠ sep)).tail)

theorem partition_fst_subset (sep : α) (l : List α) : (partition sep l).1 ⊆ l :=
  (takeWhile_sublist _).subset

theorem partition_snd_subset (sep : α) (l : List α) : (partition sep l).2 ⊆ l :=
  fun _ ha => (dropWhile_sublist _).subset (mem_of_mem_tail ha)

theorem mem_of_mem_splitOn {sep : α} {l part : List α} (h : part ∈ l.splitOn sep) : part ⊆ l := by
  induction l generalizing part with
  | nil =>
    obtain rfl : part = [] := by simpa [List.splitOn] using h
    exact nil_subset _
  | cons a l ih =>
    rw [List.splitOn, splitOnP_cons_eq_if_modifyHead] at h
    split at h
    · rcases mem_cons.mp h with rfl | h
      · exact nil_subset _
      · exact fun x hx => mem_cons_of_mem _ (ih h hx)
    · cases hs : l.splitOnP (· == sep) with
      | nil => simp [hs] at h
      | cons first rest =>
        have hfirst : first ⊆ l := ih (by rw [List.splitOn, hs]; exact mem_cons_self)
        rw [hs, modifyHead_cons] at h
        rcases mem_cons.mp h with rfl | h
        · intro x hx
          rcases mem_cons.mp hx with rfl | hx
          · exact mem_cons_self
          · exact mem_cons_of_mem _ (hfirst hx)
        · exact fun x hx =>
            mem_cons_of_mem _ (ih (by rw [List.splitOn, hs]; exact mem_cons_of_mem _ h) hx)

end Text
