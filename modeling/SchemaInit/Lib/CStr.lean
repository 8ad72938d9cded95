/-
# `SchemaInit.Lib.CStr` — byte buffers and C strings

A buffer is a list of bytes; a C string is the bytes before its terminator.
`cstr` turns a literal of the source into such a list, so that comparisons with
literals evaluate.  Reading a C string at an offset stops at the first `NUL`.
-/
import Mathlib.Data.List.TakeWhile
import Mathlib.Algebra.Order.Ring.Int

abbrev Bytes := List UInt8

/-- The bytes of an ASCII literal. -/
def cstr (s : String) : Bytes :=
  s.toList.map (fun c => UInt8.ofNat c.toNat)

/-- The byte of an ASCII character. -/
def ch (c : Char) : UInt8 :=
  UInt8.ofNat c.toNat

/-- `buf[i]`. -/
def byteAt (buf : Bytes) (i : Nat) : UInt8 :=
  buf.getD i 0

/-- The C string that starts at `off`. -/
def cstrAt (buf : Bytes) (off : Nat) : Bytes :=
  (buf.drop off).takeWhile (· ≠ 0)

/-- `strncmp(a, b, strlen(a)) == 0`. -/
def startsWith (a b : Bytes) : Bool :=
  a.isPrefixOf b

/-- `isdigit`. -/
def isDigit (b : UInt8) : Bool :=
  ch '0' ≤ b && b ≤ ch '9'

/-- A `uint32_t` read as an `int`. -/
def asInt32 (n : Nat) : Int :=
  if n < 2 ^ 31 then n else (n : Int) - 2 ^ 32

theorem byteAt_append_left (buf tail : Bytes) {i : Nat} (h : i < buf.length) :
    byteAt (buf ++ tail) i = byteAt buf i := by
  simp [byteAt, List.getElem?_append_left h]

theorem zero_notMem_cstrAt (buf : Bytes) (i : Nat) : 0 ∉ cstrAt buf i := fun h => by
  simpa using List.mem_takeWhile_imp h

/-- A string whose terminator lies in the buffer does not depend on what follows. -/
theorem cstrAt_append (buf tail : Bytes) {off i : Nat} (hi : off ≤ i) (hlt : i < buf.length)
    (hz : byteAt buf i = 0) : cstrAt (buf ++ tail) off = cstrAt buf off := by
  have hmem : (0 : UInt8) ∈ buf.drop off := by
    rw [List.mem_drop_iff_getElem]
    refine ⟨i - off, by omega, ?_⟩
    have hget : byteAt buf i = buf[i] := by
      simp [byteAt, hlt]
    simpa [show off + (i - off) = i by omega] using hget.symm.trans hz
  have hsplit : (buf ++ tail).drop off = buf.drop off ++ tail := by
    rw [List.drop_append_of_le_length (by omega)]
  rw [cstrAt, cstrAt, hsplit, List.takeWhile_append]
  split
  case isTrue hall =>
    have hself := List.takeWhile_prefix (fun b : UInt8 => decide (b ≠ 0)) (l := buf.drop off)
    have heq := hself.eq_of_length hall
    have := List.mem_takeWhile_imp (heq ▸ hmem)
    simp at this
  · rfl

/-! ## Searching -/

/-- The `strcspn(line, set)` bytes before the first one in `set`. -/
def upTo (set line : Bytes) : Bytes :=
  line.takeWhile fun c => !set.contains c

/-- `strstr(text, needle)`: what stands before the first occurrence, and the text from there. -/
def strstr (needle : Bytes) : Bytes → Option (Bytes × Bytes)
  | [] => if needle.isEmpty then some ([], []) else none
  | c :: rest =>
    if startsWith needle (c :: rest) then some ([], c :: rest)
    else (strstr needle rest).map fun found => (c :: found.1, found.2)

theorem startsWith_append (a b : Bytes) : startsWith a (a ++ b) = true := by
  simp [startsWith]

theorem startsWith_iff {a b : Bytes} : startsWith a b = true ↔ ∃ rest, b = a ++ rest := by
  rw [startsWith, List.isPrefixOf_iff_prefix]
  exact ⟨fun ⟨rest, h⟩ => ⟨rest, h.symm⟩, fun ⟨rest, h⟩ => ⟨rest, h.symm⟩⟩

/-- A text at least as long decides. -/
theorem startsWith_append_right {a b : Bytes} (tail : Bytes) (h : a.length ≤ b.length) :
    startsWith a (b ++ tail) = startsWith a b := by
  rw [Bool.eq_iff_iff, startsWith_iff, startsWith_iff]
  constructor
  · rintro ⟨rest, hrest⟩
    refine ⟨rest.take (b.length - a.length), ?_⟩
    have htake := congrArg (List.take b.length) hrest
    rwa [List.take_left', List.take_append, List.take_of_length_le h] at htake
    rfl
  · rintro ⟨rest, rfl⟩
    exact ⟨rest ++ tail, by simp⟩

theorem upTo_append (set line : Bytes) : ∃ rest, line = upTo set line ++ rest :=
  ⟨line.dropWhile fun c => !set.contains c, (List.takeWhile_append_dropWhile ..).symm⟩

theorem upTo_append_of_mem {b : UInt8} {line : Bytes} (tail : Bytes) (h : b ∈ line) :
    upTo [b] (line ++ tail) = upTo [b] line := by
  induction line with
  | nil => cases h
  | cons c rest ih =>
    by_cases hc : c = b
    · simp [upTo, hc]
    · have hrest : b ∈ rest := (List.mem_cons.mp h).resolve_left (Ne.symm hc)
      have hstep : ∀ l : Bytes, upTo [b] (c :: l) = c :: upTo [b] l := fun l => by simp [upTo, hc]
      rw [List.cons_append, hstep, hstep, ih hrest]

theorem upTo_append_of_not_mem {b : UInt8} {line : Bytes} (tail : Bytes) (h : b ∉ line) :
    upTo [b] (line ++ tail) = line ++ upTo [b] tail := by
  refine List.takeWhile_append_of_pos fun c hc => ?_
  have hne : c ≠ b := fun heq => h (heq ▸ hc)
  simpa using hne

theorem strstr_split {needle text before line : Bytes} (h : strstr needle text = some (before, line)) :
    text = before ++ line ∧ startsWith needle line = true := by
  induction text generalizing before with
  | nil =>
    simp only [strstr] at h
    split at h
    next hempty =>
      obtain ⟨rfl, rfl⟩ := Prod.mk.inj (Option.some.inj h)
      rw [List.isEmpty_iff.mp hempty]
      exact ⟨rfl, rfl⟩
    next => cases h
  | cons c rest ih =>
    simp only [strstr] at h
    split at h
    next hhere =>
      obtain ⟨rfl, rfl⟩ := Prod.mk.inj (Option.some.inj h)
      exact ⟨rfl, hhere⟩
    next =>
      obtain ⟨found, hfound, heq⟩ := Option.map_eq_some_iff.mp h
      obtain ⟨rfl, rfl⟩ := Prod.mk.inj heq
      obtain ⟨hsplit, hneedle⟩ := ih hfound
      exact ⟨by rw [List.cons_append, ← hsplit], hneedle⟩

/-- The first occurrence stays the first when the text goes on. -/
theorem strstr_append {needle text before line : Bytes} (tail : Bytes) (h : strstr needle text = some (before, line))
    (hneedle : needle ≠ []) : strstr needle (text ++ tail) = some (before, line ++ tail) := by
  induction text generalizing before with
  | nil => simp [strstr, hneedle] at h
  | cons c rest ih =>
    have hlong : needle.length ≤ (c :: rest).length := by
      obtain ⟨hsplit, hstart⟩ := strstr_split h
      obtain ⟨more, hmore⟩ := startsWith_iff.mp hstart
      have hlen := congrArg List.length hsplit
      simp only [hmore, List.length_append] at hlen
      omega
    have hhere := startsWith_append_right tail hlong
    simp only [strstr] at h
    rw [List.cons_append, strstr, ← List.cons_append, hhere]
    split at h
    next hstart =>
      obtain ⟨rfl, rfl⟩ := Prod.mk.inj (Option.some.inj h)
      rw [if_pos hstart]
    next hstart =>
      obtain ⟨found, hfound, heq⟩ := Option.map_eq_some_iff.mp h
      obtain ⟨rfl, rfl⟩ := Prod.mk.inj heq
      rw [if_neg hstart, ih hfound]
      rfl

/-- The first occurrence, where its first byte does not stand before it. -/
theorem strstr_of_not_mem {b : UInt8} {needle before line : Bytes} (hb : b ∉ before)
    (hline : startsWith (b :: needle) line = true) : strstr (b :: needle) (before ++ line) = some (before, line) := by
  induction before with
  | nil =>
    cases line with
    | nil => cases hline
    | cons c rest => simp [strstr, hline]
  | cons c before ih =>
    obtain ⟨hc, hrest⟩ := not_or.mp (mt List.mem_cons.mpr hb)
    have hnot : startsWith (b :: needle) (c :: (before ++ line)) = false := by
      simp [startsWith, List.isPrefixOf, hc]
    simp [strstr, hnot, ih hrest]
