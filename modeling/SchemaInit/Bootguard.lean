/-
# `SchemaInit.Bootguard` — the state file of the boot guard (`pi_bootguard.h`)

Before each boot the guard writes how often it has tried and what it boots next; a power
cut can leave any prefix of the text behind.  A state that is written is read back, and
what is read from a prefix is the state that was written or the default, never a part of
the number or another target (`torn_write_safe`).

The number is followed by a newline, so a number that is cut is not taken; and no name
of a target is a prefix of another, so neither is a name that is cut.
-/
import SchemaInit.Lib.CStr
import Mathlib.Data.List.Infix
import Mathlib.Tactic.IntervalCases

namespace SchemaInit.Bootguard

open List

inductive Target where
  | current
  | knownGood
  | systemd
  deriving DecidableEq

structure State where
  attempts : Int32 := 0
  lastTarget : Target := .current
  deriving DecidableEq

def Target.name : Target → Bytes
  | .current => cstr "current"
  | .knownGood => cstr "known-good"
  | .systemd => cstr "systemd"

def intMax : Nat := 2 ^ 31 - 1

/-- The loop over the digits: the number and what follows it, unless it gets too large. -/
def readAttempts (v : Nat) : Bytes → Option (Nat × Bytes)
  | [] => some (v, [])
  | c :: p =>
    if isDigit c then
      let v := v * 10 + (c - ch '0').toNat
      if v > intMax then none else readAttempts v p
    else some (v, c :: p)

def readTarget (name : Bytes) : Option Target :=
  [.current, .knownGood, .systemd].find? fun t : Target => startsWith t.name name &&
    (byteAt name t.name.length = ch '\n' || byteAt name t.name.length = 0)

/-- What follows the number: a newline, and the name of a target behind its key. -/
def readLast (p : Bytes) : Option Target :=
  if p.head? ≠ some (ch '\n') || !startsWith (cstr "last_target=") p.tail then none
  else readTarget (p.drop 13)

def stateParse (buf : Option Bytes) : State :=
  match buf with
  | none => {}
  | some buf =>
    if !startsWith (cstr "attempts=") buf || !isDigit (byteAt buf 9) then {}
    else
      match readAttempts 0 (buf.drop 9) with
      | none => {}
      | some (v, p) =>
        match readLast p with
        | none => {}
        | some t => { attempts := Int32.ofInt v, lastTarget := t }

def Target.line (t : Target) : Bytes :=
  cstr "\nlast_target=" ++ t.name ++ cstr "\n"

def State.text (st : State) : Bytes :=
  cstr "attempts=" ++ cstr (toString st.attempts.toInt) ++ st.lastTarget.line

/-- `pi_state_format` into a buffer of `n` bytes. -/
def stateFormat (st : State) (n : Nat) : Option Bytes :=
  if st.text.length ≥ n then none else some st.text

/-! ## The number -/

theorem digit_of_char {c : Char} (h : c.isDigit = true) :
    isDigit (UInt8.ofNat c.toNat) = true ∧ (UInt8.ofNat c.toNat - ch '0').toNat = c.toNat - '0'.toNat := by
  obtain ⟨hlo, hhi⟩ : 48 ≤ c.toNat ∧ c.toNat ≤ 57 := by
    simpa [Char.isDigit, UInt32.le_iff_toNat_le] using h
  generalize c.toNat = n at hlo hhi
  interval_cases n <;> decide

theorem readAttempts_append {cs : List Char} (hcs : ∀ c ∈ cs, c.isDigit = true) {rest : Bytes} {v : Nat}
    (hmax : Nat.ofDigitChars 10 cs v ≤ intMax) :
    readAttempts v (cs.map (fun c => UInt8.ofNat c.toNat) ++ rest) = readAttempts (Nat.ofDigitChars 10 cs v) rest := by
  induction cs generalizing v with
  | nil => rfl
  | cons c cs ih =>
    obtain ⟨hdigit, hvalue⟩ := digit_of_char (hcs c mem_cons_self)
    rw [Nat.ofDigitChars_cons] at hmax ⊢
    -- the number only grows, so it stays below the bound on the way
    have hle : 10 * v + (c.toNat - '0'.toNat) ≤ intMax := by
      have hgrow := Nat.le_mul_of_pos_left (10 * v + (c.toNat - '0'.toNat))
        (Nat.pow_pos (n := cs.length) (show 0 < 10 by decide))
      rw [Nat.ofDigitChars_eq_ofDigitChars_zero] at hmax
      omega
    rw [map_cons, cons_append, readAttempts, if_pos hdigit, hvalue, Nat.mul_comm v 10, if_neg (not_lt.mpr hle)]
    exact ih (fun c hc => hcs c (mem_cons_of_mem _ hc)) hmax

/-- The text of a number that is not negative: its digits. -/
theorem decimal_digits {n : Int} (h : 0 ≤ n) : ∃ cs : List Char,
    cstr (toString n) = cs.map (fun c => UInt8.ofNat c.toNat) ∧ cs ≠ [] ∧ (∀ c ∈ cs, c.isDigit = true) ∧
      Nat.ofDigitChars 10 cs 0 = n.toNat := by
  obtain ⟨n, rfl⟩ := Int.eq_ofNat_of_zero_le h
  have htext : toString (n : Int) = String.ofList (Nat.toDigits 10 n) := Nat.toString_eq_ofList_toDigits
  refine ⟨Nat.toDigits 10 n, by rw [cstr, htext, String.toList_ofList], Nat.toDigits_ne_nil, fun c hc => ?_,
    Nat.ofDigitChars_ten_toDigits⟩
  exact Nat.isDigit_of_mem_toDigits (by decide) (by decide) hc

/-! ## Cuts -/

theorem readLast_cut (t : Target) : ∀ c ∈ t.line.inits,
    (readLast c = none ∨ readLast c = some t) ∧ c.takeWhile isDigit = [] := by
  cases t <;> decide

theorem readAttempts_stop {p : Bytes} (h : p.takeWhile isDigit = []) (v : Nat) : readAttempts v p = some (v, p) := by
  cases p with
  | nil => rfl
  | cons c p =>
    have hc : ¬ isDigit c = true := by simpa using h
    rw [readAttempts, if_neg hc]

theorem readAttempts_inside {d : Bytes} (h : ∀ b ∈ d, isDigit b = true) {v w : Nat} {p : Bytes}
    (hread : readAttempts v d = some (w, p)) : p = [] := by
  induction d generalizing v with
  | nil =>
    cases hread
    rfl
  | cons c d ih =>
    rw [readAttempts, if_pos (h c mem_cons_self)] at hread
    dsimp only at hread
    split at hread
    · cases hread
    · exact ih (fun b hb => h b (mem_cons_of_mem _ hb)) hread

/-- A text that ends inside the number is not taken. -/
theorem stateParse_inside {d : Bytes} (h : ∀ b ∈ d, isDigit b = true) :
    stateParse (some (cstr "attempts=" ++ d)) = {} := by
  have hdrop : (cstr "attempts=" ++ d).drop 9 = d := rfl
  simp only [stateParse, hdrop]
  split
  · rfl
  · cases hread : readAttempts 0 d with
    | none => rfl
    | some r =>
      obtain ⟨v, p⟩ := r
      rw [readAttempts_inside h hread]
      rfl

/-- A text that goes on behind the number is read by what is there. -/
theorem stateParse_behind {st : State} (h : 0 ≤ st.attempts.toInt) {p : Bytes} (hp : p.takeWhile isDigit = []) :
    stateParse (some (cstr "attempts=" ++ (cstr (toString st.attempts.toInt) ++ p))) =
      match readLast p with
      | none => {}
      | some t => { attempts := st.attempts, lastTarget := t } := by
  obtain ⟨cs, htext, hne, hall, hvalue⟩ := decimal_digits h
  have hmax : Nat.ofDigitChars 10 cs 0 ≤ intMax := by
    have := st.attempts.toInt_lt
    rw [hvalue, intMax]
    omega
  have hback : Int32.ofInt (st.attempts.toInt.toNat : Int) = st.attempts := by
    rw [Int.toNat_of_nonneg h, Int32.ofInt_toInt]
  obtain ⟨c, cs', rfl⟩ := exists_cons_of_ne_nil hne
  have hdigit := (digit_of_char (hall c mem_cons_self)).1
  rw [htext]
  generalize hd : map (fun c => UInt8.ofNat c.toNat) (c :: cs') ++ p = d
  have hbyte : byteAt (cstr "attempts=" ++ d) 9 = UInt8.ofNat c.toNat := hd ▸ rfl
  have hdrop : (cstr "attempts=" ++ d).drop 9 = d := rfl
  simp only [stateParse, startsWith_append, hbyte, hdigit, hdrop]
  rw [← hd, readAttempts_append hall hmax, readAttempts_stop hp, hvalue]
  simp only [hback]
  rfl

theorem torn_write_safe (st : State) (h : 0 ≤ st.attempts.toInt) (n : Nat) (hroom : st.text.length < n) :
    ∃ text, stateFormat st n = some text ∧ stateParse (some text) = st ∧
      ∀ cut, cut <+: text → stateParse (some cut) = st ∨ stateParse (some cut) = {} := by
  have hbehind : ∀ c ∈ st.lastTarget.line.inits,
      stateParse (some (cstr "attempts=" ++ (cstr (toString st.attempts.toInt) ++ c))) =
        match readLast c with
        | none => {}
        | some t => { attempts := st.attempts, lastTarget := t } := fun c hc =>
    stateParse_behind h (readLast_cut st.lastTarget c hc).2
  refine ⟨st.text, if_neg (not_le.mpr hroom), ?_, fun cut hcut => ?_⟩
  · have hline : readLast st.lastTarget.line = some st.lastTarget := by
      cases st.lastTarget <;> decide
    rw [State.text, append_assoc, hbehind _ ((mem_inits ..).mpr prefix_rfl), hline]
  · rw [State.text, append_assoc] at hcut
    -- a cut in the key, in the number, or behind it
    rcases prefix_or_prefix_of_prefix hcut (prefix_append _ _) with hkey | ⟨d, rfl⟩
    · right
      have hall : ∀ c ∈ (cstr "attempts=").inits, stateParse (some c) = {} := by decide
      exact hall cut ((mem_inits ..).mpr hkey)
    · rw [prefix_append_right_inj] at hcut
      rcases prefix_or_prefix_of_prefix hcut (prefix_append _ _) with hnumber | ⟨c, rfl⟩
      · right
        obtain ⟨cs, htext, -, hall, -⟩ := decimal_digits h
        refine stateParse_inside fun b hb => ?_
        have hb := hnumber.subset hb
        rw [htext, mem_map] at hb
        obtain ⟨c, hc, rfl⟩ := hb
        exact (digit_of_char (hall c hc)).1
      · rw [prefix_append_right_inj, ← mem_inits] at hcut
        rw [hbehind c hcut]
        rcases (readLast_cut st.lastTarget c hcut).1 with hlast | hlast
        · right
          rw [hlast]
        · left
          rw [hlast]

theorem torn_write_safe_known_good :
    ∃ text, stateFormat { attempts := 12, lastTarget := .knownGood } 64 = some text ∧
      stateParse (some text) = { attempts := 12, lastTarget := .knownGood } ∧
      ∀ cut, cut <+: text → stateParse (some cut) = { attempts := 12, lastTarget := .knownGood } ∨
        stateParse (some cut) = {} :=
  torn_write_safe { attempts := 12, lastTarget := .knownGood } (by decide) 64 (by decide)

end SchemaInit.Bootguard
