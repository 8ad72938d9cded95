/-
# `SchemaInit.Engine.Cmdline` — command lines, from the importer to PID 1

`schema-import` (Python) writes the words of a command with `_cmd_quote`, one blank
between two words.  PID 1 (C) takes the line apart with `service_split_cmdline`, which
knows three forms of quoting.  The quoter uses one of them, and only for words that are
empty or have a character outside its safe set.

`split_cmd_quote` says that the second undoes the first.  Python works on characters and
C on the bytes of their UTF-8; what the two treat specially is ASCII, and no byte of
another character is.
-/
import SchemaInit.Lib.CStr
import Mathlib.Data.List.Basic

namespace SchemaInit.Engine

open List
open UInt8 (ofNat toNat_ofNat')

/-! ## The splitter -/

def squote : UInt8 := 39
def dquote : UInt8 := 34
def backslash : UInt8 := 92

def isBlank (c : UInt8) : Bool :=
  [ch ' ', ch '\t', ch '\n', ch '\r'].contains c

inductive Quote where
  | bare | single | double
  deriving DecidableEq

def Quote.mark : Quote → UInt8
  | .single => squote
  | _ => dquote

def copyByte (c : UInt8) (r : Option (Bytes × Bytes)) : Option (Bytes × Bytes) :=
  r.map fun r => (c :: r.1, r.2)

/-- The rest of a word, and what follows it; `esc` is set behind a backslash. -/
def splitWord (relax : Bool) : Quote → (esc : Bool) → Bytes → Option (Bytes × Bytes)
  -- a backslash with nothing behind it stands for itself
  | q, esc, [] => if q = .bare ∨ relax then some (if esc then [backslash] else [], []) else none
  | q, true, c :: rest => copyByte c (splitWord relax q false rest)
  | q, false, c :: rest =>
    if c = backslash ∧ q ≠ .single then splitWord relax q true rest
    else if q = .bare then
      if isBlank c then some ([], c :: rest)
      else if c = squote then splitWord relax .single false rest
      else if c = dquote then splitWord relax .double false rest
      else copyByte c (splitWord relax .bare false rest)
    else if c = q.mark then splitWord relax .bare false rest
    else copyByte c (splitWord relax q false rest)

def splitWords (relax : Bool) : (max : Nat) → Bytes → Option (List Bytes)
  | 0, s => if s.dropWhile isBlank = [] then some [] else none
  | max + 1, s =>
    if s.dropWhile isBlank = [] then some []
    else
      match splitWord relax .bare false (s.dropWhile isBlank) with
      | none => none
      | some (w, rest) => (splitWords relax max rest).map (w :: ·)

def serviceSplitCmdline (s : Bytes) (max : Nat) : Option (List Bytes) :=
  splitWords false max (cstrAt s 0)

/-! ## The quoter -/

section Quoter

-- which characters beyond ASCII `\w` takes is Python's
variable (alnum : Char → Bool)

def safeChar (c : Char) : Bool :=
  if c.toNat < 128 then c.isAlphanum || "_@%+=:,./$\x7b\x7d-".toList.contains c else alnum c

def replaceChar (c : Char) (r : List Char) (s : List Char) : List Char :=
  s.flatMap fun x => if x = c then r else [x]

def cmdQuote (tok : List Char) : List Char :=
  if tok ≠ [] ∧ tok.all (safeChar alnum) then tok
  else '\x22' :: (replaceChar '\x22' ['\\', '\x22'] (replaceChar '\\' ['\\', '\\'] tok) ++ ['\x22'])

def cmdLine (words : List (List Char)) : List Char :=
  [' '].intercalate (words.map (cmdQuote alnum))

end Quoter

def utf8 (s : List Char) : Bytes :=
  s.flatMap String.utf8EncodeChar

/-! ## Bytes of the quoted text -/

theorem utf8_append (s t : List Char) : utf8 (s ++ t) = utf8 s ++ utf8 t :=
  flatMap_append

theorem utf8_ascii {c : Char} (h : c.toNat < 128) : String.utf8EncodeChar c = [ofNat c.toNat] :=
  if_pos (Nat.le_of_lt_succ h)

theorem utf8_high {c : Char} (h : ¬ c.toNat < 128) : ∀ b ∈ String.utf8EncodeChar c, 128 ≤ b.toNat := by
  have hhigh (n k : Nat) : ∀ m, 128 ≤ m → m + k ≤ 256 → 0 < k → 128 ≤ (ofNat (n % k + m)).toNat := by
    intro m hm hk hpos
    have := Nat.mod_lt n hpos
    rw [toNat_ofNat', Nat.mod_eq_of_lt (by omega)]
    omega
  have hle : ¬ c.val.toNat ≤ 127 := fun hle => h (Nat.lt_succ_of_le hle)
  intro b hb
  simp only [String.utf8EncodeChar, if_neg hle] at hb
  split at hb
  · simp only [mem_cons, not_mem_nil, or_false] at hb
    rcases hb with rfl | rfl <;> exact hhigh _ _ _ (by omega) (by omega) (by omega)
  · split at hb
    · simp only [mem_cons, not_mem_nil, or_false] at hb
      rcases hb with rfl | rfl | rfl <;> exact hhigh _ _ _ (by omega) (by omega) (by omega)
    · simp only [mem_cons, not_mem_nil, or_false] at hb
      rcases hb with rfl | rfl | rfl | rfl <;> exact hhigh _ _ _ (by omega) (by omega) (by omega)

theorem ascii_inj {c d : Char} (hc : c.toNat < 128) (hd : d.toNat < 128)
    (h : ofNat c.toNat = ofNat d.toNat) : c = d := by
  have hnat := congrArg UInt8.toNat h
  rw [toNat_ofNat', toNat_ofNat', Nat.mod_eq_of_lt (by omega), Nat.mod_eq_of_lt (by omega)] at hnat
  exact Char.toNat_inj.mp hnat

theorem mem_utf8 {s : List Char} {b : UInt8} (h : b ∈ utf8 s) :
    (∃ c ∈ s, c.toNat < 128 ∧ b = ofNat c.toNat) ∨ 128 ≤ b.toNat := by
  obtain ⟨c, hc, hb⟩ := mem_flatMap.mp h
  by_cases hascii : c.toNat < 128
  · rw [utf8_ascii hascii, mem_singleton] at hb
    exact .inl ⟨c, hc, hascii, hb⟩
  · exact .inr (utf8_high hascii b hb)

def escapeBytes (bs : Bytes) : Bytes :=
  bs.flatMap fun b => if b = backslash ∨ b = dquote then [backslash, b] else [b]

theorem escapeBytes_high {bs : Bytes} (h : ∀ b ∈ bs, 128 ≤ b.toNat) : escapeBytes bs = bs := by
  induction bs with
  | nil => rfl
  | cons b bs ih =>
    have hb : ¬ (b = backslash ∨ b = dquote) := by
      have := h b mem_cons_self
      rintro (rfl | rfl) <;> exact absurd this (by decide)
    have hrest := ih fun c hc => h c (mem_cons_of_mem _ hc)
    rw [escapeBytes, flatMap_cons, if_neg hb]
    exact congrArg (b :: ·) hrest

theorem utf8_replace (tok : List Char) :
    utf8 (replaceChar '\x22' ['\\', '\x22'] (replaceChar '\\' ['\\', '\\'] tok)) = escapeBytes (utf8 tok) := by
  simp only [utf8, replaceChar, escapeBytes, flatMap_assoc]
  refine flatMap_congr fun c _ => ?_
  by_cases hback : c = '\\'
  · subst hback
    decide
  · by_cases hquote : c = '\x22'
    · subst hquote
      decide
    · have hone : escapeBytes (String.utf8EncodeChar c) = String.utf8EncodeChar c := by
        by_cases hascii : c.toNat < 128
        · rw [utf8_ascii hascii]
          have hspecial : ¬ (ofNat c.toNat = backslash ∨ ofNat c.toNat = dquote) := by
            rintro (heq | heq)
            · exact hback (ascii_inj hascii (by decide) heq)
            · exact hquote (ascii_inj hascii (by decide) heq)
          simp [escapeBytes, hspecial]
        · exact escapeBytes_high (utf8_high hascii)
      simpa [hback, hquote, escapeBytes] using hone.symm

/-! ## Reading it back -/

theorem copyByte_map (c : UInt8) (bs : Bytes) (r : Option (Bytes × Bytes)) :
    copyByte c (r.map fun r => (bs ++ r.1, r.2)) = r.map fun r => (c :: bs ++ r.1, r.2) := by
  cases r with
  | none => rfl
  | some r => rfl

theorem splitWord_escapeBytes (relax : Bool) (bs rest : Bytes) :
    splitWord relax .double false (escapeBytes bs ++ dquote :: rest) =
      (splitWord relax .bare false rest).map fun r => (bs ++ r.1, r.2) := by
  induction bs with
  | nil =>
    have hstep : splitWord relax .double false (dquote :: rest) = splitWord relax .bare false rest := by
      simp [splitWord, show dquote ≠ backslash by decide, Quote.mark]
    exact hstep.trans (Option.map_id' ..).symm
  | cons b bs ih =>
    have hsplit : escapeBytes (b :: bs) =
      (if b = backslash ∨ b = dquote then [backslash, b] else [b]) ++ escapeBytes bs :=
      flatMap_cons
    rw [hsplit, ← copyByte_map, ← ih]
    by_cases hb : b = backslash ∨ b = dquote
    · simp [hb, splitWord]
    · rw [if_neg hb, append_assoc, singleton_append, splitWord]
      obtain ⟨hback, hquote⟩ := not_or.mp hb
      simp [hback, hquote, Quote.mark]

def Bare (b : UInt8) : Prop :=
  isBlank b = false ∧ b ≠ squote ∧ b ≠ dquote ∧ b ≠ backslash

theorem splitWord_bare (relax : Bool) {bs : Bytes} (h : ∀ b ∈ bs, Bare b) (rest : Bytes) :
    splitWord relax .bare false (bs ++ rest) = (splitWord relax .bare false rest).map fun r => (bs ++ r.1, r.2) := by
  induction bs with
  | nil => exact (Option.map_id' ..).symm
  | cons b bs ih =>
    obtain ⟨hblank, hsingle, hdouble, hback⟩ := h b mem_cons_self
    rw [← copyByte_map, ← ih fun c hc => h c (mem_cons_of_mem _ hc), cons_append, splitWord]
    simp [hblank, hsingle, hdouble, hback]

theorem splitWord_end (relax : Bool) {rest : Bytes} (h : ∀ b ∈ rest.head?, isBlank b = true) :
    splitWord relax .bare false rest = some ([], rest) := by
  cases rest with
  | nil => simp [splitWord]
  | cons b rest =>
    have hblank := h b rfl
    have hback : b ≠ backslash := by
      rintro rfl
      exact absurd hblank (by decide)
    simp [splitWord, hback, hblank]

variable {alnum : Char → Bool}

theorem bare_of_safe {tok : List Char} (h : tok.all (safeChar alnum) = true) : ∀ b ∈ utf8 tok, Bare b := by
  intro b hb
  rcases mem_utf8 hb with ⟨c, hc, hascii, rfl⟩ | hhigh
  · have hsafe := all_eq_true.mp h c hc
    have hne (d : Char) (hd : d.toNat < 128) (hbad : safeChar alnum d = false) :
        ofNat c.toNat ≠ ofNat d.toNat := by
      intro heq
      rw [ascii_inj hascii hd heq, hbad] at hsafe
      cases hsafe
    refine ⟨?_, hne (Char.ofNat 39) (by decide) rfl, hne '\x22' (by decide) rfl, hne '\\' (by decide) rfl⟩
    have hblanks : ∀ d ∈ [' ', '\t', '\n', '\r'], ofNat c.toNat ≠ ch d := by
      simp only [forall_mem_cons]
      exact ⟨hne _ (by decide) rfl, hne _ (by decide) rfl, hne _ (by decide) rfl, hne _ (by decide) rfl, by simp⟩
    simpa [isBlank] using hblanks
  · have hne (d : UInt8) (hd : d.toNat < 128) : b ≠ d := by
      rintro rfl
      omega
    refine ⟨?_, hne _ (by decide), hne _ (by decide), hne _ (by decide)⟩
    simp [isBlank, hne (ch ' ') (by decide), hne (ch '\t') (by decide),
      hne (ch '\n') (by decide), hne (ch '\r') (by decide)]

theorem utf8_cmdQuote (alnum : Char → Bool) (tok : List Char) :
    (utf8 (cmdQuote alnum tok) = utf8 tok ∧ tok ≠ [] ∧ ∀ b ∈ utf8 tok, Bare b) ∨
      utf8 (cmdQuote alnum tok) = dquote :: (escapeBytes (utf8 tok) ++ [dquote]) := by
  rw [cmdQuote]
  split
  next h => exact .inl ⟨rfl, h.1, bare_of_safe h.2⟩
  next =>
    have hmark : utf8 ['\x22'] = [dquote] := by decide
    rw [← singleton_append, utf8_append, utf8_append, utf8_replace, hmark]
    exact .inr rfl

theorem splitWord_cmdQuote (tok : List Char) {rest : Bytes} (h : ∀ b ∈ rest.head?, isBlank b = true) :
    splitWord false .bare false (utf8 (cmdQuote alnum tok) ++ rest) = some (utf8 tok, rest) := by
  rcases utf8_cmdQuote alnum tok with ⟨heq, -, hbare⟩ | heq
  · rw [heq, splitWord_bare false hbare, splitWord_end false h]
    simp
  · have hopen (s : Bytes) : splitWord false .bare false (dquote :: s) = splitWord false .double false s := by
      simp [splitWord, show isBlank dquote = false by decide, show dquote ≠ backslash by decide,
        show dquote ≠ squote by decide]
    rw [heq, cons_append, append_assoc, hopen, singleton_append, splitWord_escapeBytes, splitWord_end false h]
    simp

theorem dropWhile_cmdQuote (alnum : Char → Bool) (tok : List Char) (rest : Bytes) :
    (utf8 (cmdQuote alnum tok) ++ rest).dropWhile isBlank = utf8 (cmdQuote alnum tok) ++ rest ∧
      utf8 (cmdQuote alnum tok) ≠ [] := by
  rcases utf8_cmdQuote alnum tok with ⟨heq, hne, hbare⟩ | heq
  · rw [heq]
    cases hs : utf8 tok with
    | nil =>
      obtain ⟨c, s, rfl⟩ := exists_cons_of_ne_nil hne
      simp [utf8] at hs
    | cons b s =>
      rw [hs] at hbare
      simp [(hbare b mem_cons_self).1]
  · rw [heq]
    simp [show isBlank dquote = false by decide]

theorem utf8_cmdLine_cons (tok : List Char) (words : List (List Char)) : utf8 (cmdLine alnum (tok :: words)) =
      utf8 (cmdQuote alnum tok) ++ if words = [] then [] else ch ' ' :: utf8 (cmdLine alnum words) := by
  cases words with
  | nil => simp [cmdLine]
  | cons next words =>
    have hblank : utf8 [' '] = [ch ' '] := by decide
    have hjoin : cmdLine alnum (tok :: next :: words) = cmdQuote alnum tok ++
        ([' '] ++ cmdLine alnum (next :: words)) := by
      simp [cmdLine, List.intercalate]
    rw [hjoin, utf8_append, utf8_append, hblank]
    rfl

theorem splitWords_blank (max : Nat) (s : Bytes) : splitWords false max (ch ' ' :: s) = splitWords false max s := by
  have hdrop : (ch ' ' :: s).dropWhile isBlank = s.dropWhile isBlank := dropWhile_cons_of_pos (by decide)
  cases max with
  | zero => rw [splitWords, splitWords, hdrop]
  | succ max => rw [splitWords, splitWords, hdrop]

theorem splitWords_cmdLine (words : List (List Char)) {max : Nat} (hmax : words.length ≤ max) :
    splitWords false max (utf8 (cmdLine alnum words)) = some (words.map utf8) := by
  induction words generalizing max with
  | nil =>
    have hnil : utf8 (cmdLine alnum []) = [] := rfl
    cases max with
    | zero => simp [hnil, splitWords]
    | succ max => simp [hnil, splitWords]
  | cons tok words ih =>
    obtain ⟨max, rfl⟩ : ∃ m, max = m + 1 := ⟨max - 1, by simp only [length_cons] at hmax; omega⟩
    have hle : words.length ≤ max := Nat.le_of_succ_le_succ hmax
    generalize hrest : (if words = [] then [] else ch ' ' :: utf8 (cmdLine alnum words) : Bytes) = rest
    obtain ⟨hdrop, hne⟩ := dropWhile_cmdQuote alnum tok rest
    have hend : ∀ b ∈ rest.head?, isBlank b = true := by
      intro b hb
      split at hrest
      next => simp [← hrest] at hb
      next =>
        obtain rfl : ch ' ' = b := by simpa [← hrest] using hb
        decide
    have hbehind : splitWords false max rest = some (words.map utf8) := by
      split at hrest
      next hnil =>
        have hword := ih hle
        rw [hnil] at hword
        rw [hnil, ← hrest]
        exact hword
      next => rw [← hrest, splitWords_blank, ih hle]
    rw [utf8_cmdLine_cons, hrest, splitWords, hdrop, if_neg (by simp [hne]), splitWord_cmdQuote tok hend]
    simp [hbehind]

theorem cstrAt_cmdLine {words : List (List Char)} (hnul : ∀ w ∈ words, Char.ofNat 0 ∉ w) :
    cstrAt (utf8 (cmdLine alnum words)) 0 = utf8 (cmdLine alnum words) := by
  have hword : ∀ w ∈ words, (0 : UInt8) ∉ utf8 w := by
    intro w hw hzero
    rcases mem_utf8 hzero with ⟨c, hc, hascii, heq⟩ | hhigh
    · have hc0 : Char.ofNat 0 = c := ascii_inj (by decide) hascii heq
      exact hnul w hw (hc0 ▸ hc)
    · exact absurd hhigh (by decide)
  have hquoted : ∀ w ∈ words, (0 : UInt8) ∉ utf8 (cmdQuote alnum w) := by
    intro w hw
    rcases utf8_cmdQuote alnum w with ⟨heq, -, -⟩ | heq
    · rw [heq]
      exact hword w hw
    · intro hzero
      simp only [heq, mem_cons, mem_append, escapeBytes, mem_flatMap, not_mem_nil, or_false] at hzero
      rcases hzero with hzero | ⟨b, hb, hzero⟩ | hzero
      · exact absurd hzero (by decide)
      · split at hzero
        next =>
          simp only [mem_cons, not_mem_nil, or_false] at hzero
          rcases hzero with hzero | rfl
          · exact absurd hzero (by decide)
          · exact hword w hw hb
        next =>
          rw [mem_singleton] at hzero
          exact hword w hw (hzero ▸ hb)
      · exact absurd hzero (by decide)
  have hline : (0 : UInt8) ∉ utf8 (cmdLine alnum words) := by
    clear hnul hword
    induction words with
    | nil => exact not_mem_nil
    | cons tok words ih =>
      have hrest := ih fun w hw => hquoted w (mem_cons_of_mem _ hw)
      rw [utf8_cmdLine_cons, mem_append, not_or]
      refine ⟨hquoted tok mem_cons_self, ?_⟩
      split
      next => exact not_mem_nil
      next => exact fun h => (mem_cons.mp h).elim (by decide) hrest
  rw [cstrAt, drop_zero, takeWhile_eq_self_iff]
  intro b hb
  have hne : b ≠ 0 := fun h => hline (h ▸ hb)
  simpa using hne

/-- The splitter undoes the quoter: for all words without `NUL`, whatever else is in them. -/
theorem split_cmd_quote {words : List (List Char)} (hnul : ∀ w ∈ words, Char.ofNat 0 ∉ w) {max : Nat}
    (hmax : words.length ≤ max) : serviceSplitCmdline (utf8 (cmdLine alnum words)) max = some (words.map utf8) := by
  rw [serviceSplitCmdline, cstrAt_cmdLine hnul]
  exact splitWords_cmdLine words hmax

theorem split_cmd_quote_sh : let words := ["sh".toList, "-c".toList, "echo \x22$HOME\x22 'a b' \\".toList, []]
    serviceSplitCmdline (utf8 (cmdLine (fun _ => true) words)) 4 = some (words.map utf8) :=
  split_cmd_quote (by decide) (by decide)

end SchemaInit.Engine
