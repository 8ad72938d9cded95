/-
# `SchemaInit.Lib.Scan` — formats, and cursors that go bad

A binary format is a `Parser`.  Two facts about it are all that is needed to
reason about files in the format:

    Reads p a w    p reads the tokens w as a, whatever follows
    Stable p       what p accepts it also accepts with more behind it

Both are closed under sequencing and repetition, so they hold of a format once
they hold of its parts.  From the two, no strict prefix of a `Reads` text is
accepted (`Reads.not_accepts`).

Code that reads a format often works otherwise: a `Cursor` holds an offset and a
flag, a read past the end raises the flag and gives a default, and the flag is
looked at now and then.  `Mirrors f p` says that `f` on a good cursor does what
`p` does on the tokens left, and raises the flag where `p` fails; `Sticky f`,
that it never takes the flag back; `Inside f`, that it stays in the buffer.
-/
import Mathlib.Algebra.Order.Ring.Int

namespace Scan

open List

variable {τ α β : Type*}

/-- It takes a list of tokens and gives a value and what is left, or fails. -/
abbrev Parser (τ α : Type*) := List τ → Option (α × List τ)

namespace Parser

protected def pure (a : α) : Parser τ α := fun xs => some (a, xs)

protected def bind (p : Parser τ α) (f : α → Parser τ β) : Parser τ β := fun xs =>
  match p xs with
  | none => none
  | some (a, rest) => f a rest

/-- Succeeds, without reading, if the test does. -/
def test (c : Bool) : Parser τ Unit := fun xs => if c then some ((), xs) else none

/-- Succeeds, without reading, if so many tokens are left. -/
def need (n : Nat) : Parser τ Unit := fun xs => if n ≤ xs.length then some ((), xs) else none

/-- The next `n` tokens. -/
def take (n : Nat) : Parser τ (List τ) := fun xs =>
  if n ≤ xs.length then some (xs.take n, xs.drop n) else none

protected def map (f : α → β) (p : Parser τ α) : Parser τ β :=
  Parser.bind p fun a => Parser.pure (f a)

/-- What the partial function gives for the value read. -/
def filterMap (f : α → Option β) (p : Parser τ α) : Parser τ β :=
  Parser.bind p fun a xs => (f a).map (·, xs)

/-- One parser, then another that may look at what the first gave; both values. -/
def pair (p : Parser τ α) (q : α → Parser τ β) : Parser τ (α × β) :=
  Parser.bind p fun a => Parser.map (a, ·) (q a)

/-- The parser so many times. -/
def times (p : Parser τ α) : Nat → Parser τ (List α)
  | 0 => Parser.pure []
  | n + 1 => Parser.bind p fun a => Parser.map (a :: ·) (times p n)

theorem map_fst_pair_pure (p : Parser τ α) (b : β) : Parser.map Prod.fst (pair p fun _ => Parser.pure b) = p := by
  funext xs
  simp only [pair, Parser.map, Parser.bind, Parser.pure]
  cases p xs with
  | none => rfl
  | some x => rfl

theorem times_succ (p : Parser τ α) (n : Nat) :
    times p (n + 1) = Parser.map (fun x => x.1 :: x.2) (pair p fun _ => times p n) := by
  funext xs
  simp only [times, pair, Parser.map, Parser.bind, Parser.pure]
  cases p xs with
  | none => rfl
  | some x =>
    dsimp only
    cases times p n x.2 with
    | none => rfl
    | some y => rfl

theorem length_of_times {p : Parser τ α} {n : Nat} {xs : List τ} {x : List α × List τ} (h : times p n xs = some x) :
    x.1.length = n := by
  induction n generalizing xs x with
  | zero =>
    cases h
    rfl
  | succ n ih =>
    simp only [times, Parser.bind, Parser.map, Parser.pure] at h
    cases hp : p xs with
    | none => simp [hp] at h
    | some y =>
      simp only [hp] at h
      cases ht : times p n y.2 with
      | none => simp [ht] at h
      | some z =>
        simp only [ht, Option.some.injEq] at h
        rw [← h, length_cons, ih ht]

end Parser

/-! ## Reading what was written -/

/-- `p` reads the tokens `w` as `a`. -/
def Reads (p : Parser τ α) (a : α) (w : List τ) : Prop :=
  ∀ rest, p (w ++ rest) = some (a, rest)

namespace Reads

variable {p : Parser τ α} {a : α} {w : List τ}

theorem pure (a : α) : Reads (Parser.pure a : Parser τ α) a [] := fun _ => rfl

theorem bind {f : α → Parser τ β} {b : β} {v : List τ} (h : Reads p a w) (hf : Reads (f a) b v) :
    Reads (Parser.bind p f) b (w ++ v) := by
  intro rest
  simp [Parser.bind, h (v ++ rest), hf rest]

theorem map (f : α → β) (h : Reads p a w) : Reads (Parser.map f p) (f a) w := by
  have hmap : Reads (Parser.map f p) (f a) (w ++ []) := Reads.bind h (Reads.pure (f a))
  rwa [append_nil] at hmap

theorem pair {q : α → Parser τ β} {b : β} {v : List τ} (h : Reads p a w) (hq : Reads (q a) b v) :
    Reads (Parser.pair p q) (a, b) (w ++ v) := h.bind (hq.map (a, ·))

theorem filterMap {f : α → Option β} {b : β} (h : Reads p a w) (hf : f a = some b) :
    Reads (Parser.filterMap f p) b w := by
  intro rest
  simp [Parser.filterMap, Parser.bind, h rest, hf]

theorem test {c : Bool} (hc : c = true) : Reads (Parser.test c : Parser τ Unit) () [] := by
  intro rest
  simp [Parser.test, hc]

theorem take {n : Nat} (h : w.length = n) : Reads (Parser.take n) w w := by
  intro rest
  simp [Parser.take, ← h]

/-- What was written of each `x` is read as `val x`. -/
theorem times {xs : List β} (val : β → α) {enc : β → List τ} (h : ∀ x ∈ xs, Reads p (val x) (enc x)) :
    Reads (Parser.times p xs.length) (xs.map val) (xs.flatMap enc) := by
  induction xs with
  | nil => exact Reads.pure []
  | cons x xs ih =>
    exact (h x mem_cons_self).bind ((ih fun y hy => h y (mem_cons_of_mem _ hy)).map (val x :: ·))

/-- A count that was checked against what is left. -/
theorem need_bind {f : Unit → Parser τ β} {b : β} {v : List τ} {n : Nat} (hn : n ≤ v.length) (h : Reads (f ()) b v) :
    Reads (Parser.bind (Parser.need n) f) b v := by
  intro rest
  have hlen : n ≤ (v ++ rest).length := by
    rw [length_append]
    omega
  simp only [Parser.bind, Parser.need, if_pos hlen]
  exact h rest

end Reads

/-! ## More behind it -/

/-- What `p` accepts it accepts with more behind it. -/
def Stable (p : Parser τ α) : Prop :=
  ∀ xs ys a rest, p xs = some (a, rest) → p (xs ++ ys) = some (a, rest ++ ys)

namespace Stable

variable {p : Parser τ α}

theorem pure (a : α) : Stable (Parser.pure a : Parser τ α) := by
  rintro xs ys b rest h
  cases h
  rfl

theorem bind {f : α → Parser τ β} (h : Stable p) (hf : ∀ a, Stable (f a)) : Stable (Parser.bind p f) := by
  intro xs ys b rest hb
  unfold Parser.bind at hb ⊢
  cases hp : p xs with
  | none => simp [hp] at hb
  | some x =>
    rw [hp] at hb
    rw [h xs ys x.1 x.2 hp]
    exact hf x.1 x.2 ys b rest hb

theorem map (f : α → β) (h : Stable p) : Stable (Parser.map f p) := h.bind fun _ => Stable.pure _

theorem pair {q : α → Parser τ β} (h : Stable p) (hq : ∀ a, Stable (q a)) : Stable (Parser.pair p q) :=
  h.bind fun a => (hq a).map _

theorem filterMap (f : α → Option β) (h : Stable p) : Stable (Parser.filterMap f p) := by
  refine h.bind fun a xs ys b rest hb => ?_
  cases hfa : f a with
  | none => simp [hfa] at hb
  | some c =>
    simp only [hfa, Option.map_some, Option.some.injEq, Prod.mk.injEq] at hb ⊢
    exact ⟨hb.1, by rw [hb.2]⟩

theorem test (c : Bool) : Stable (Parser.test c : Parser τ Unit) := by
  intro xs ys a rest h
  unfold Parser.test at h ⊢
  split at h
  case isTrue hc =>
    cases h
    rw [if_pos hc]
  · cases h

theorem need (n : Nat) : Stable (Parser.need n : Parser τ Unit) := by
  intro xs ys a rest h
  unfold Parser.need at h ⊢
  split at h
  · cases h
    rw [if_pos (by rw [length_append]; omega)]
  · cases h

theorem take (n : Nat) : Stable (Parser.take n : Parser τ (List τ)) := by
  intro xs ys a rest h
  unfold Parser.take at h ⊢
  split at h
  case isTrue hle =>
    cases h
    rw [if_pos (by rw [length_append]; omega), take_append_of_le_length hle,
      drop_append_of_le_length hle]
  · cases h

theorem times (h : Stable p) (n : Nat) : Stable (Parser.times p n) := by
  induction n with
  | zero => exact Stable.pure []
  | succ n ih => exact h.bind fun a => ih.map _

end Stable

/-- No strict prefix of a text that a stable parser reads is accepted. -/
theorem Reads.not_accepts {p : Parser τ α} {a : α} {w : List τ} (h : Reads p a w) (hs : Stable p) {v : List τ}
    (hv : v <+: w) (hne : v ≠ w) : p v = none := by
  obtain ⟨more, rfl⟩ := hv
  cases hp : p v with
  | none => rfl
  | some x =>
    have hlong := hs v more x.1 x.2 hp
    have hwhole := h []
    rw [append_nil, hlong] at hwhole
    have hmore : more = [] := by
      have := congrArg (fun o : Option (α × List τ) => o.map Prod.snd) hwhole
      exact (by simpa using this : x.2 = [] ∧ more = []).2
    simp [hmore] at hne

/-! ## Cursors -/

/-- A buffer that is read from `off` on.  `reach` is history: the end of the furthest
token read. -/
structure Cursor (τ : Type*) where
  buf : List τ
  off : Nat
  bad : Bool
  reach : Nat

abbrev Scanner (τ α : Type*) := Cursor τ → α × Cursor τ

namespace Cursor

/-- A cursor that has read everything up to `off`. -/
def good (buf : List τ) (off : Nat) : Cursor τ := ⟨buf, off, false, off⟩

/-- The tokens not read yet. -/
def left (c : Cursor τ) : Nat := c.buf.length - c.off

def fail (c : Cursor τ) : Cursor τ := { c with bad := true }

/-- The next `n` tokens; the cursor goes bad if there are fewer. -/
def get (n : Nat) : Scanner τ (Option (List τ)) := fun c =>
  if c.bad ∨ n > c.left then (none, c.fail)
  else (some ((c.buf.drop c.off).take n), { c with off := c.off + n, reach := max c.reach (c.off + n) })

/-- The cursor is in its buffer, and so is everything it has read. -/
structure Within (c : Cursor τ) : Prop where
  off : c.off ≤ c.buf.length
  reach : c.reach ≤ c.buf.length

theorem within_good {buf : List τ} {off : Nat} (h : off ≤ buf.length) : (good buf off).Within := ⟨h, h⟩

end Cursor

namespace Scanner

protected def pure (a : α) : Scanner τ α := fun c => (a, c)

protected def bind (f : Scanner τ α) (k : α → Scanner τ β) : Scanner τ β := fun c =>
  let (a, c) := f c
  k a c

protected def map (g : α → β) (f : Scanner τ α) : Scanner τ β :=
  Scanner.bind f fun a => Scanner.pure (g a)

/-- The scanner so many times. -/
def times (f : Scanner τ α) : Nat → Scanner τ (List α)
  | 0 => Scanner.pure []
  | n + 1 => Scanner.bind f fun a => Scanner.map (a :: ·) (times f n)

end Scanner

/-- A scanner keeps the buffer, stays in it, and never takes the flag back. -/
structure Tame (f : Scanner τ α) : Prop where
  buf : ∀ c, (f c).2.buf = c.buf
  within : ∀ c, c.Within → (f c).2.Within
  sticky : ∀ c, c.bad = true → (f c).2.bad = true

namespace Tame

variable {f : Scanner τ α}

theorem pure (a : α) : Tame (Scanner.pure a : Scanner τ α) where
  buf _ := rfl
  within _ h := h
  sticky _ h := h

theorem bind {k : α → Scanner τ β} (h : Tame f) (hk : ∀ a, Tame (k a)) : Tame (Scanner.bind f k) where
  buf c := ((hk _).buf _).trans (h.buf c)
  within c hc := (hk _).within _ (h.within c hc)
  sticky c hc := (hk _).sticky _ (h.sticky c hc)

theorem map (g : α → β) (h : Tame f) : Tame (Scanner.map g f) := h.bind fun _ => Tame.pure _

theorem times (h : Tame f) (n : Nat) : Tame (Scanner.times f n) := by
  induction n with
  | zero => exact Tame.pure []
  | succ n ih => exact h.bind fun a => ih.map _

theorem get (n : Nat) : Tame (Cursor.get n : Scanner τ (Option (List τ))) where
  buf c := by
    unfold Cursor.get
    split <;> rfl
  within c hc := by
    unfold Cursor.get
    split
    · exact { hc with }
    case isFalse h =>
      have hoff := hc.off
      have hreach := hc.reach
      have hn : n ≤ c.buf.length - c.off := by
        rw [not_or] at h
        exact Nat.not_lt.mp h.2
      exact ⟨by dsimp only; omega, by dsimp only; omega⟩
  sticky c hc := by
    simp [Cursor.get, hc, Cursor.fail]

end Tame

/-- On a good cursor the scanner does what the parser does on the tokens left: it gives
the value as `g` presents it, or goes bad. -/
def Mirrors (f : Scanner τ β) (p : Parser τ α) (g : α → β) : Prop :=
  ∀ buf off, off ≤ buf.length →
    match p (buf.drop off) with
    | none => (f (Cursor.good buf off)).2.bad = true
    | some (a, rest) => ∃ off' ≤ buf.length, rest = buf.drop off' ∧
        f (Cursor.good buf off) = (g a, Cursor.good buf off')

namespace Mirrors

variable {γ δ : Type*}

theorem get (n : Nat) : Mirrors (Cursor.get n : Scanner τ (Option (List τ))) (Parser.take n) some := by
  intro buf off hoff
  by_cases hn : n ≤ buf.length - off
  · rw [Parser.take, if_pos (by rwa [length_drop])]
    refine ⟨off + n, by omega, by rw [drop_drop], ?_⟩
    have hgood : ¬ ((Cursor.good buf off).bad = true ∨ n > (Cursor.good buf off).left) := by
      rintro (hbad | hlong)
      · cases hbad
      · exact Nat.not_lt.mpr hn hlong
    rw [Cursor.get, if_neg hgood]
    simp [Cursor.good]
  · rw [Parser.take, if_neg (by rwa [length_drop])]
    have hbad : (Cursor.good buf off).bad = true ∨ n > (Cursor.good buf off).left := .inr (Nat.not_le.mp hn)
    rw [Cursor.get, if_pos hbad]
    rfl

theorem bind {f : Scanner τ β} {p : Parser τ α} {g : α → β} {k : β → Scanner τ δ} {q : α → Parser τ γ} {g' : γ → δ}
    (h : Mirrors f p g) (hk : ∀ a, Mirrors (k (g a)) (q a) g') (htame : ∀ b, Tame (k b)) :
    Mirrors (Scanner.bind f k) (Parser.bind p q) g' := by
  intro buf off hoff
  have hf := h buf off hoff
  cases hp : p (buf.drop off) with
  | none =>
    rw [hp] at hf
    simp only [Parser.bind, hp]
    exact (htame _).sticky _ hf
  | some x =>
    obtain ⟨a, rest⟩ := x
    rw [hp] at hf
    obtain ⟨off', hle, rfl, hval⟩ := hf
    simp only [Parser.bind, hp, Scanner.bind, hval]
    exact hk a buf off' hle

theorem pure (b : α) (g : α → β) : Mirrors (Scanner.pure (g b) : Scanner τ β) (Parser.pure b) g :=
  fun _ off hoff => ⟨off, hoff, rfl, rfl⟩

theorem map {f : Scanner τ β} {p : Parser τ α} {g : α → β} (h : Mirrors f p g) {u : β → δ} {v : α → γ} {g' : γ → δ}
    (huv : ∀ a, u (g a) = g' (v a)) : Mirrors (Scanner.map u f) (Parser.map v p) g' := by
  refine h.bind (fun a => ?_) (fun _ => Tame.pure _)
  rw [huv]
  exact Mirrors.pure (v a) g'

/-- The parser may give the value as the scanner presents it. -/
theorem present {f : Scanner τ β} {p : Parser τ α} {g : α → β} (h : Mirrors f p g) : Mirrors f (Parser.map g p) id := by
  intro buf off hoff
  have hf := h buf off hoff
  simp only [Parser.map, Parser.bind, Parser.pure]
  cases hp : p (buf.drop off) with
  | none =>
    rw [hp] at hf
    exact hf
  | some x =>
    rw [hp] at hf
    exact hf

theorem times {f : Scanner τ β} {p : Parser τ α} {g : α → β} (h : Mirrors f p g) (ht : Tame f) (n : Nat) :
    Mirrors (Scanner.times f n) (Parser.times p n) (List.map g) := by
  induction n with
  | zero => exact Mirrors.pure [] (List.map g)
  | succ n ih => exact h.bind (fun a => ih.map fun _ => rfl) fun _ => (ht.times n).map _

end Mirrors

/-- A tame scanner that mirrors a parser. -/
structure Follows (f : Scanner τ β) (p : Parser τ α) (g : α → β) : Prop where
  mirrors : Mirrors f p g
  tame : Tame f

namespace Follows

variable {γ δ : Type*}

theorem pure (a : α) (g : α → β) : Follows (Scanner.pure (g a) : Scanner τ β) (Parser.pure a) g :=
  ⟨Mirrors.pure a g, Tame.pure _⟩

theorem bind {f : Scanner τ α} {p : Parser τ α} {k : α → Scanner τ δ} {q : α → Parser τ γ} {g : γ → δ}
    (h : Follows f p id) (hk : ∀ a, Follows (k a) (q a) g) : Follows (Scanner.bind f k) (Parser.bind p q) g :=
  ⟨h.mirrors.bind (fun a => (hk a).mirrors) fun a => (hk a).tame, h.tame.bind fun a => (hk a).tame⟩

theorem map {f : Scanner τ α} {p : Parser τ α} (h : Follows f p id) (u : α → β) :
    Follows (Scanner.map u f) (Parser.map u p) id :=
  ⟨h.mirrors.map fun _ => rfl, h.tame.map u⟩

theorem times {f : Scanner τ α} {p : Parser τ α} (h : Follows f p id) (n : Nat) :
    Follows (Scanner.times f n) (Parser.times p n) id := by
  have hm := h.mirrors.times h.tame n
  rw [show List.map (id : α → α) = id from funext map_id] at hm
  exact ⟨hm, h.tame.times n⟩

end Follows

end Scan
