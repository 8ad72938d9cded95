/-
# `SchemaInit.Sink.Record` — one message, one line

`emit` writes a message as one line of the log, and to the kernel's log if that is open.
It folds newlines of the message to blanks.  The tag it takes as it is, and the line is
formatted into an array that may be too short: then the newline at its end is cut off,
and the kernel's record is written with the length it should have had, bytes behind the
array included.

`emit_one_line_iff` says which calls leave exactly one line.  The sources differ in the
tags they let through: a textual field and a header line have no newline, but the tag of
a `/dev/log` datagram is whatever stands before the colon.
-/
import SchemaInit.Sink.Native
import Mathlib.Tactic.IntervalCases

namespace SchemaInit.Sink

open List

/-- `LINE_MAX_`. -/
def lineMax : Nat := 8192

/-! ## `/dev/log` -/

/-- The datagram without the newlines and `NUL`s at its end. -/
def stripEnd (buf : Bytes) : Bytes :=
  (buf.reverse.dropWhile fun b => b = newline || b = 0).reverse

/-- The priority `<N>` in front, and what is behind it. -/
def devlogPri (p : Bytes) : Int × Bytes :=
  if p.head? = some (ch '<') then
    match cut (ch '>') p with
    | some (_, rest) => (atoi p.tail % 8, rest)
    | none => (-1, p)
  else (-1, p)

/-- What is behind a time stamp of the form `Mmm dd hh:mm:ss`. -/
def skipStamp (p : Bytes) : Bytes :=
  if 16 ≤ p.length ∧ byteAt p 3 = ch ' ' ∧ byteAt p 6 = ch ' ' ∧ byteAt p 9 = ch ':' ∧
      byteAt p 12 = ch ':' ∧ byteAt p 15 = ch ' ' then p.drop 16
  else p

/-- The tag before the colon, and the message. -/
def devlogTag (p : Bytes) : Bytes × Bytes :=
  match cut (ch ':') p with
  | some (before, rest) =>
    if before.length < 255 ∧ ch ' ' ∉ before then
      (cstrAt (before.takeWhile (· ≠ ch '[')) 0, rest.dropWhile (· = ch ' '))
    else ([], p)
  | none => ([], p)

/-- The call of `emit` for a datagram on `/dev/log`. -/
def devlogCall (buf : Bytes) : Call :=
  let (sev, p) := devlogPri (stripEnd buf)
  let (tag, msg) := devlogTag (skipStamp p)
  { src := cstr "devlog", sev := sev, tag := tag, msg := msg }

/-! ## Streams -/

/-- The digit of `<N>`, as a `char` minus `'0'`. -/
def levelDigit (b : UInt8) : Int :=
  (if b.toNat < 128 then (b.toNat : Int) else b.toNat - 256) - 48

/-- The call of `emit` for a line of a stream, behind its header. -/
def lineCall (ident line : Bytes) : Call :=
  if 3 ≤ line.length ∧ byteAt line 0 = ch '<' ∧ byteAt line 2 = ch '>' then
    { src := cstr "stdout", sev := levelDigit (byteAt line 1), tag := ident, msg := line.drop 3 }
  else { src := cstr "stdout", sev := -1, tag := ident, msg := line }

/-- What is kept of the first header line. -/
def identOf (line : Bytes) : Bytes :=
  cstrAt (line.take 255) 0

/-- The calls of `emit` that the three sources make. -/
inductive FromSource : Call → Prop
  | native {beyond buf c} (h : parseNative beyond buf = some c) : FromSource c
  | devlog (buf : Bytes) : FromSource (devlogCall buf)
  | stdout (first line : Bytes) : FromSource (lineCall (identOf first) line)

/-! ## `emit` -/

/-- The names of the priorities. -/
def prio : List String := ["emerg", "alert", "crit", "err", "warning", "notice", "info", "debug"]

/-- The name of a priority, or a dash. -/
def prioName (sev : Int) : Bytes :=
  if 0 ≤ sev ∧ sev < 8 then cstr (prio.getD sev.toNat "") else cstr "-"

/-- The message with its newlines folded, as `%s` prints it. -/
def shown (msg : Bytes) : Bytes :=
  ((msg.take lineMax).map fun c =>
    if c = newline ∨ c = ch '\r' then ch ' ' else c).takeWhile (· ≠ 0)

/-- The tag, or a dash. -/
def shownTag (tag : Bytes) : Bytes :=
  if tag = [] then cstr "-" else tag

/-- The line of the log, before it is cut. -/
def logText (ts : Bytes) (c : Call) : Bytes :=
  (ts ++ cstr " " ++ c.src ++ cstr " " ++ prioName c.sev ++ cstr " ") ++
    (shownTag c.tag ++ (cstr ": " ++ shown c.msg)) ++ [newline]

/-- The priority of the kernel's record. -/
def kmsgPri (sev : Int) : Bytes :=
  cstr ("<" ++ toString (8 + if 0 ≤ sev ∧ sev < 8 then sev else 6) ++ ">")

/-- The kernel's record, before it is cut. -/
def kmsgText (c : Call) : Bytes :=
  kmsgPri c.sev ++ (shownTag c.tag ++ (cstr ": " ++ shown c.msg)) ++ [newline]

/-- What `line[LINE_MAX_ + 256]` holds of the line. -/
def logBytes (ts : Bytes) (c : Call) : Bytes :=
  (logText ts c).take (lineMax + 256 - 1)

/-- `kn` bytes from `kline[LINE_MAX_ + 64]` on; `after` is the memory behind the array. -/
def kmsgBytes (after : Bytes) (c : Call) : Bytes :=
  if (kmsgText c).length < lineMax + 64 then kmsgText c
  else ((kmsgText c).take (lineMax + 64 - 1) ++ 0 :: after).take (kmsgText c).length

/-- The log, `out_sz` and `out_cap`, and the records of the kernel's log if it is open. -/
structure Files where
  log : Bytes
  outSz : Nat
  outCap : Nat
  kmsg : Option (List Bytes)

/-- The log is full and starts over. -/
def restarts (s : Files) (n : Nat) (truncates : Bool) : Bool :=
  s.outCap > 0 && s.outSz + n > s.outCap && truncates

/-- `emit`; `ts` is the time, and `truncates` says whether the log can be cut to nothing. -/
def emit (ts after : Bytes) (truncates : Bool) (c : Call) (s : Files) : Files :=
  let again := restarts s (logBytes ts c).length truncates
  { log := (if again then [] else s.log) ++ logBytes ts c
    outSz := (if again then 0 else s.outSz) + (logBytes ts c).length
    outCap := s.outCap
    kmsg := s.kmsg.map (· ++ [kmsgBytes after c]) }

/-- The call leaves one line: its newline is its last byte.  The kernel gets no more than the
text. -/
structure Recorded (ts : Bytes) (truncates : Bool) (c : Call) (s s' : Files) : Prop where
  log : ∃ a, s'.log = (if restarts s (logBytes ts c).length truncates then [] else s.log) ++
    (a ++ [newline]) ∧ newline ∉ a
  kmsg : ∀ ks, s.kmsg = some ks → ∃ k, s'.kmsg = some (ks ++ [k]) ∧ k <+: kmsgText c

/-! ## Which calls do -/

theorem length_cstrAt_le (buf : Bytes) : (cstrAt buf 0).length ≤ buf.length :=
  (List.takeWhile_prefix _).length_le

theorem FromSource.bounds {c : Call} (h : FromSource c) :
    (0 : UInt8) ∉ c.tag ∧ c.tag.length ≤ 255 ∧ c.src ∈ [cstr "native", cstr "devlog", cstr "stdout"] := by
  cases h with
  | native h =>
    obtain ⟨msg, -, rfl⟩ := Option.map_eq_some_iff.mp h
    refine ⟨?_, ?_, by simp⟩
    all_goals
      dsimp only [tagbuf]
      split
      · split
        · first
          | exact zero_notMem_cstrAt _ 0
          | exact (length_cstrAt_le _).trans (by omega)
        · simp
      · simp
  | devlog buf =>
    refine ⟨?_, ?_, by simp [devlogCall]⟩
    all_goals
      dsimp only [devlogCall, devlogTag]
      split
      next before rest _ =>
        split
        next hshort =>
          have hle : (before.takeWhile fun x => decide (x ≠ ch '[')).length ≤ before.length :=
            (List.takeWhile_prefix _).length_le
          first
          | exact zero_notMem_cstrAt _ 0
          | exact (length_cstrAt_le _).trans (by omega)
        next => simp
      next => simp
  | stdout first line =>
    have htag : (lineCall (identOf first) line).tag = identOf first ∧
        (lineCall (identOf first) line).src = cstr "stdout" := by
      unfold lineCall
      split <;> exact ⟨rfl, rfl⟩
    rw [htag.1, htag.2]
    refine ⟨zero_notMem_cstrAt _ 0, (length_cstrAt_le _).trans (length_take_le ..), by simp⟩

theorem prioName_clean (sev : Int) : newline ∉ prioName sev ∧ (prioName sev).length ≤ 7 := by
  unfold prioName
  split
  next h =>
    obtain ⟨hlo, hhi⟩ := h
    interval_cases sev <;> decide
  next => decide

theorem zero_notMem_kmsgPri (sev : Int) : (0 : UInt8) ∉ kmsgPri sev := by
  unfold kmsgPri
  split
  next h =>
    obtain ⟨hlo, hhi⟩ := h
    interval_cases sev <;> decide
  next => decide

theorem shown_clean (msg : Bytes) : newline ∉ shown msg ∧ (0 : UInt8) ∉ shown msg := by
  refine ⟨fun h => ?_, fun h => ?_⟩
  · obtain ⟨b, -, hb⟩ := mem_map.mp ((takeWhile_subset _) h)
    split at hb
    next => exact absurd hb (by decide)
    next hno => exact hno (.inl hb)
  · simpa using mem_takeWhile_imp h

theorem mem_shownTag {b : UInt8} (hb : b ≠ ch '-') (tag : Bytes) : b ∈ shownTag tag ↔ b ∈ tag := by
  unfold shownTag
  split
  next h =>
    rw [h]
    simpa [cstr, ch] using hb
  next => rfl

theorem take_one_line_iff {a tag mid : Bytes} {n : Nat} (ha : newline ∉ a) (hmid : newline ∉ mid)
    (hn : a.length + tag.length < n) :
    (∃ x, (a ++ (tag ++ mid) ++ [newline]).take n = x ++ [newline] ∧ newline ∉ x) ↔
      newline ∉ tag ∧ (a ++ (tag ++ mid) ++ [newline]).length ≤ n := by
  constructor
  · rintro ⟨x, hx, hclean⟩
    by_cases hlen : (a ++ (tag ++ mid) ++ [newline]).length ≤ n
    · rw [take_of_length_le hlen] at hx
      obtain rfl : a ++ (tag ++ mid) = x := append_cancel_right hx
      exact ⟨fun h => hclean (by simp [h]), hlen⟩
    · -- the last byte that is left belongs to the middle
      simp only [length_append, length_singleton, not_le] at hlen
      rw [take_append_of_le_length (by simp only [length_append]; omega), ← append_assoc,
        take_append, take_of_length_le (by rw [length_append]; omega)] at hx
      have hmem : newline ∈ mid.take (n - (a ++ tag).length) := by
        have hne : mid.take (n - (a ++ tag).length) ≠ [] := by
          rw [ne_eq, take_eq_nil_iff, length_append]
          rintro (h | rfl)
          · omega
          · simp only [length_nil] at hlen
            omega
        have hlast := congrArg List.getLast? hx
        rw [getLast?_append, getLast?_eq_some_getLast hne, Option.some_or, getLast?_concat] at hlast
        exact Option.some.inj hlast ▸ getLast_mem hne
      exact absurd (mem_of_mem_take hmem) hmid
  · rintro ⟨htag, hlen⟩
    exact ⟨_, take_of_length_le hlen, by simp [ha, htag, hmid]⟩

theorem kmsgBytes_isPrefix_iff (after : Bytes) {c : Call} (h : (0 : UInt8) ∉ c.tag) :
    kmsgBytes after c <+: kmsgText c ↔ (kmsgText c).length < lineMax + 64 := by
  unfold kmsgBytes
  split
  next hlen => simp [hlen]
  next hlen =>
    refine iff_of_false (fun hpre => ?_) hlen
    have hnul : (0 : UInt8) ∉ kmsgText c := by
      have htag : (0 : UInt8) ∉ shownTag c.tag := fun hmem =>
        h ((mem_shownTag (by decide) _).mp hmem)
      have hcolon : (0 : UInt8) ∉ cstr ": " := by decide
      simp only [kmsgText, mem_append, not_or, mem_singleton]
      exact ⟨⟨zero_notMem_kmsgPri _, htag, hcolon, (shown_clean c.msg).2⟩, by decide⟩
    have hcut : ((kmsgText c).take (lineMax + 64 - 1)).length = lineMax + 64 - 1 :=
      length_take_of_le (by omega)
    refine hnul (hpre.subset ?_)
    rw [take_append, take_of_length_le (by omega), hcut]
    obtain ⟨k, hk⟩ : ∃ k, (kmsgText c).length - (lineMax + 64 - 1) = k + 1 :=
      ⟨(kmsgText c).length - (lineMax + 64), by simp only [lineMax] at *; omega⟩
    rw [hk]
    exact mem_append_right _ mem_cons_self

theorem length_shownTag (tag : Bytes) : (shownTag tag).length = max 1 tag.length := by
  unfold shownTag
  split
  next h => simp [h, cstr]
  next h => rw [Nat.max_eq_right (length_pos_iff.mpr h)]

theorem length_logText (ts : Bytes) (c : Call) :
    (logText ts c).length = ts.length + c.src.length + (prioName c.sev).length +
      max 1 c.tag.length + (shown c.msg).length + 6 := by
  simp only [logText, length_append, length_shownTag, cstr, length_map, String.reduceToList,
    length_cons, length_nil]
  omega

theorem length_kmsgText (c : Call) :
    (kmsgText c).length =
      (kmsgPri c.sev).length + max 1 c.tag.length + (shown c.msg).length + 3 := by
  simp only [kmsgText, length_append, length_shownTag, cstr, length_map, String.reduceToList,
    length_cons, length_nil]
  omega

/-- A call of `emit` leaves one line exactly if there is no newline in its tag, and stamp, tag
and message leave room in the two arrays. -/
theorem emit_one_line_iff {ts : Bytes} (hts : newline ∉ ts ∧ ts.length ≤ 31) {c : Call}
    (hc : FromSource c) (after : Bytes) (truncates : Bool) (s : Files) :
    Recorded ts truncates c s (emit ts after truncates c s) ↔
      newline ∉ c.tag ∧
      ts.length + c.src.length + (prioName c.sev).length + max 1 c.tag.length +
        (shown c.msg).length + 6 < lineMax + 256 ∧
      (s.kmsg = none ∨
        (kmsgPri c.sev).length + max 1 c.tag.length + (shown c.msg).length + 3 < lineMax + 64) := by
  rw [← length_logText, ← length_kmsgText]
  obtain ⟨hnul, htag, hsrc⟩ := hc.bounds
  obtain ⟨hprio, hpriolen⟩ := prioName_clean c.sev
  have hsource : newline ∉ c.src ∧ c.src.length ≤ 6 := by
    have hall : ∀ x ∈ [cstr "native", cstr "devlog", cstr "stdout"],
        newline ∉ x ∧ x.length ≤ 6 := by
      decide
    exact hall _ hsrc
  have hhead : newline ∉ ts ++ cstr " " ++ c.src ++ cstr " " ++ prioName c.sev ++ cstr " " := by
    have hblank : newline ∉ cstr " " := by decide
    simp [hts.1, hsource.1, hprio, hblank]
  have hmid : newline ∉ cstr ": " ++ shown c.msg := by
    have hcolon : newline ∉ cstr ": " := by decide
    simp [hcolon, (shown_clean c.msg).1]
  have hroom : (ts ++ cstr " " ++ c.src ++ cstr " " ++ prioName c.sev ++ cstr " ").length +
      (shownTag c.tag).length < lineMax + 256 - 1 := by
    have hblank : (cstr " ").length = 1 := rfl
    simp only [length_append, hblank, lineMax, length_shownTag]
    omega
  have hlog := take_one_line_iff hhead hmid hroom
  rw [mem_shownTag (by decide)] at hlog
  have hkmsg := kmsgBytes_isPrefix_iff after hnul
  constructor
  · rintro ⟨⟨a, ha, hclean⟩, hk⟩
    have hline := hlog.mp ⟨a, append_cancel_left ha, hclean⟩
    refine ⟨hline.1, Nat.lt_of_le_of_lt hline.2 (by decide), ?_⟩
    cases hopen : s.kmsg with
    | none => exact .inl rfl
    | some ks =>
      obtain ⟨k, hk', hpre⟩ := hk ks hopen
      obtain rfl : kmsgBytes after c = k := by simpa [emit, hopen] using hk'
      exact .inr (hkmsg.mp hpre)
  · rintro ⟨htag, hlen, hk⟩
    obtain ⟨a, ha, hclean⟩ := hlog.mpr ⟨htag, Nat.le_sub_one_of_lt hlen⟩
    refine ⟨⟨a, congrArg (_ ++ ·) ha, hclean⟩,
      fun ks hopen => ⟨_, by simp [emit, hopen], hkmsg.mpr ?_⟩⟩
    exact hk.resolve_left (by simp [hopen])

theorem emit_one_line_iff_hello :
    let c := lineCall (identOf (cstr "sh")) (cstr "<6>hello")
    let s : Files := ⟨[], 0, 0, none⟩
    Recorded (cstr "T") true c s (emit (cstr "T") [] true c s) :=
  (emit_one_line_iff (by decide) (.stdout _ _) [] true _).mpr (by decide)

theorem devlog_forges_record :
    (emit (cstr "T") [] true (devlogCall (cstr "a\nb:x")) ⟨[], 0, 0, none⟩).log =
      cstr "T devlog - a\nb: x\n" := by
  decide

end SchemaInit.Sink
