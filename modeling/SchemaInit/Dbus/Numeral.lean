/-
# `SchemaInit.Dbus.Numeral` — what `strtol` reads

A numeral is what `strtol` takes from the front of a text: blanks, at most one
sign, and digits.  `strtol_text` says that a numeral is read with its value,
clamped to a `long`, and that reading stops behind it; `strtol_cases` says that
`strtol` either read a numeral or took nothing.  Both the handshake and the
policy parser ask whether the whole text was read, which is `strtol_whole`.
-/
import SchemaInit.Dbus.Auth

namespace SchemaInit.Dbus

open List

variable (s ds : Bytes)

def decValue (ds : Bytes) : Nat :=
  ds.foldl (fun v d => 10 * v + (d - ch '0').toNat) 0

inductive Sign where
  | none | plus | minus
  deriving DecidableEq

def Sign.text : Sign → Bytes
  | .none => []
  | .plus => [ch '+']
  | .minus => [ch '-']

def Sign.apply : Sign → Nat → Int
  | .minus, v => -(v : Int)
  | _, v => v

/-- A text that `strtol` reads to its end. -/
structure Numeral where
  blanks : Bytes
  sign : Sign
  digits : Bytes
  blanks_space : ∀ b ∈ blanks, isSpace b = true
  digits_ne : digits ≠ []
  digits_digit : ∀ b ∈ digits, isDigit b = true

variable (n : Numeral)

def Numeral.text (n : Numeral) : Bytes :=
  n.blanks ++ (n.sign.text ++ n.digits)

def Numeral.value (n : Numeral) : Int :=
  n.sign.apply (decValue n.digits)

def clampLong (v : Int) : Int :=
  max longMin (min longMax v)

/-! ## Digits, blanks and signs are different bytes -/

theorem isSpace_eq_false_of_isDigit {b : UInt8} (h : isDigit b = true) : isSpace b = false := by
  obtain ⟨hlo, hhi⟩ : 48 ≤ b.toNat ∧ b.toNat ≤ 57 := by
    simpa [isDigit, UInt8.le_iff_toNat_le, show ch '0' = 48 from rfl, show ch '9' = 57 from rfl] using h
  have hblank : b ≠ ch ' ' := by
    rintro rfl
    exact absurd hlo (by decide)
  have hhigh : ¬ b.toNat ≤ 13 := by omega
  simp [isSpace, hblank, UInt8.le_iff_toNat_le, hhigh]

theorem isDigit_ne_minus {b : UInt8} (h : isDigit b = true) : b ≠ ch '-' := by
  rintro rfl
  exact absurd h (by decide)

theorem isDigit_ne_plus {b : UInt8} (h : isDigit b = true) : b ≠ ch '+' := by
  rintro rfl
  exact absurd h (by decide)

/-! ## Reading a numeral -/

theorem foldl_digits_int (v : Nat) : ds.foldl (fun v d => 10 * v + ((d - ch '0').toNat : Int)) (v : Int) =
      ((ds.foldl (fun v d => 10 * v + (d - ch '0').toNat) v : Nat) : Int) := by
  induction ds generalizing v with
  | nil => rfl
  | cons d ds ih =>
    have hstep : 10 * (v : Int) + ((d - ch '0').toNat : Int) = ((10 * v + (d - ch '0').toNat : Nat) : Int) := by
      push_cast
      rfl
    rw [foldl_cons, foldl_cons, hstep, ih]

def strtolDigits (s : Bytes) (neg : Bool) (p : Bytes) : Int × Bytes :=
  let digits := p.takeWhile isDigit
  if digits = [] then (0, s)
  else (if neg then max longMin (-(decValue digits : Int)) else min longMax (decValue digits), p.drop digits.length)

theorem strtol_eq :
    strtol s =
      let p := s.dropWhile isSpace
      strtolDigits s (p.head? = some (ch '-'))
        (if p.head? = some (ch '-') ∨ p.head? = some (ch '+') then p.tail else p) := by
  have hfold (ds : Bytes) : ds.foldl (fun v d => 10 * v + ((d - ch '0').toNat : Int)) 0 = (decValue ds : Int) :=
    foldl_digits_int ds 0
  simp only [strtol, strtolDigits, hfold]
  split <;> simp

theorem strtolDigits_of_digits (neg : Bool) {ds rest : Bytes} (hne : ds ≠ [])
    (hds : ∀ b ∈ ds, isDigit b = true) (hrest : ∀ b, rest.head? = some b → isDigit b = false) :
    strtolDigits s neg (ds ++ rest) =
      (if neg then max longMin (-(decValue ds : Int)) else min longMax (decValue ds), rest) := by
  have htake : (ds ++ rest).takeWhile isDigit = ds := by
    rw [takeWhile_append_of_pos hds]
    cases rest with
    | nil => simp
    | cons b rest => simp [hrest b rfl]
  simp [strtolDigits, htake, if_neg hne]

theorem clampLong_sign (sg : Sign) (v : Nat) :
    clampLong (sg.apply v) = if sg = .minus then max longMin (-(v : Int)) else min longMax (v : Int) := by
  cases sg with
  | none => simp only [Sign.apply, clampLong, longMin, longMax, reduceCtorEq, if_false]; omega
  | plus => simp only [Sign.apply, clampLong, longMin, longMax, reduceCtorEq, if_false]; omega
  | minus => simp only [Sign.apply, clampLong, longMin, longMax, if_true]; omega

theorem Numeral.dropWhile_text (rest : Bytes) :
    (n.text ++ rest).dropWhile isSpace = n.sign.text ++ (n.digits ++ rest) := by
  rw [Numeral.text, append_assoc, dropWhile_append_of_pos n.blanks_space, append_assoc]
  cases hs : n.sign with
  | plus => simp [Sign.text, show isSpace (ch '+') = false by decide]
  | minus => simp [Sign.text, show isSpace (ch '-') = false by decide]
  | none =>
    cases hd : n.digits with
    | nil => exact absurd hd n.digits_ne
    | cons d ds =>
      have hdig : isDigit d = true := n.digits_digit d (by simp [hd])
      simp [Sign.text, isSpace_eq_false_of_isDigit hdig]

theorem strtol_text {r : Bytes} (hrest : ∀ b, r.head? = some b → isDigit b = false) :
    strtol (n.text ++ r) = (clampLong n.value, r) := by
  have hread := strtolDigits_of_digits (n.text ++ r) (decide (n.sign = .minus)) n.digits_ne n.digits_digit hrest
  rw [strtol_eq, n.dropWhile_text, Numeral.value, clampLong_sign]
  cases hs : n.sign with
  | plus => simpa [Sign.text, hs, show ch '+' ≠ ch '-' by decide] using hread
  | minus => simpa [Sign.text, hs] using hread
  | none =>
    cases hd : n.digits with
    | nil => exact absurd hd n.digits_ne
    | cons d ds =>
      have hdig : isDigit d = true := n.digits_digit d (by simp [hd])
      simpa [Sign.text, hs, hd, isDigit_ne_minus hdig, isDigit_ne_plus hdig] using hread

theorem head?_dropWhile_false {p : UInt8 → Bool} {l : Bytes} {b : UInt8}
    (h : (l.dropWhile p).head? = some b) : p b = false := by
  have := head?_dropWhile_not p l
  rw [h] at this
  simpa using this

theorem exists_sign (p : Bytes) :
    ∃ sg : Sign, p = sg.text ++ (if p.head? = some (ch '-') ∨ p.head? = some (ch '+') then p.tail else p) := by
  cases p with
  | nil => exact ⟨.none, rfl⟩
  | cons b p =>
    by_cases hm : b = ch '-'
    · exact ⟨.minus, by simp [hm, Sign.text]⟩
    by_cases hp : b = ch '+'
    · exact ⟨.plus, by simp [hp, Sign.text]⟩
    · exact ⟨.none, by simp [hm, hp, Sign.text]⟩

theorem strtol_cases :
    (∃ (n : Numeral) (rest : Bytes), s = n.text ++ rest ∧ ∀ b, rest.head? = some b → isDigit b = false) ∨
      strtol s = (0, s) := by
  obtain ⟨sg, hsg⟩ := exists_sign (s.dropWhile isSpace)
  set q := if (s.dropWhile isSpace).head? = some (ch '-') ∨ (s.dropWhile isSpace).head? = some (ch '+')
    then (s.dropWhile isSpace).tail else s.dropWhile isSpace with hq
  by_cases hne : q.takeWhile isDigit = []
  · right
    rw [strtol_eq]
    simp only [strtolDigits, ← hq, if_pos hne]
  · left
    refine ⟨{ blanks := s.takeWhile isSpace, sign := sg, digits := q.takeWhile isDigit,
              blanks_space := fun b hb => mem_takeWhile_imp hb, digits_ne := hne,
              digits_digit := fun b hb => mem_takeWhile_imp hb }, q.dropWhile isDigit, ?_, ?_⟩
    · simp [Numeral.text, ← hsg]
    · intro b hb
      exact head?_dropWhile_false hb

theorem strtol_whole {s : Bytes} (h : (strtol s).2 = []) :
    s = [] ∨ ∃ n : Numeral, s = n.text ∧ (strtol s).1 = clampLong n.value := by
  rcases strtol_cases s with ⟨n, rest, rfl, hrest⟩ | hnone
  · rw [strtol_text n hrest] at h ⊢
    obtain rfl : rest = [] := h
    exact .inr ⟨n, by simp, rfl⟩
  · rw [hnone] at h
    exact .inl h

theorem strtol_of_text : strtol n.text = (clampLong n.value, []) := by
  have h := strtol_text n (r := []) (by simp)
  simpa using h

/-! ## Plain digits -/

def Numeral.ofDigits (ds : Bytes) (hne : ds ≠ []) (hds : ∀ b ∈ ds, isDigit b = true) : Numeral where
  blanks := []
  sign := .none
  digits := ds
  blanks_space := by simp
  digits_ne := hne
  digits_digit := hds

@[simp] theorem Numeral.text_ofDigits (hne : ds ≠ []) (hds : ∀ b ∈ ds, isDigit b = true) :
    (Numeral.ofDigits ds hne hds).text = ds := rfl

@[simp] theorem Numeral.value_ofDigits (hne : ds ≠ []) (hds : ∀ b ∈ ds, isDigit b = true) :
    (Numeral.ofDigits ds hne hds).value = decValue ds := rfl

theorem Numeral.plain {n : Numeral} {b : UInt8} (hb : n.text.head? = some b) (hspace : isSpace b = false)
    (hplus : b ≠ ch '+') (hminus : b ≠ ch '-') : n.text = n.digits ∧ n.value = decValue n.digits := by
  have hblanks : n.blanks = [] := by
    cases hbl : n.blanks with
    | nil => rfl
    | cons x xs =>
      have hx : isSpace x = true := n.blanks_space x (by simp [hbl])
      rw [Numeral.text, hbl] at hb
      obtain rfl : x = b := by simpa using hb
      rw [hx] at hspace
      cases hspace
  cases hs : n.sign with
  | none => simp [Numeral.text, Numeral.value, hblanks, hs, Sign.text, Sign.apply]
  | plus => exact absurd (by simpa [Numeral.text, hblanks, hs, Sign.text] using hb.symm) hplus
  | minus => exact absurd (by simpa [Numeral.text, hblanks, hs, Sign.text] using hb.symm) hminus

end SchemaInit.Dbus
