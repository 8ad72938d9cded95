/-
# `SchemaInit.Sink.Native` — entries of the native journal protocol

A datagram is a list of fields.  A field is `NAME=value` on a line, or `NAME` on a line
of its own and then a length, that many raw bytes and a newline.  `parse_native` keeps
the message, the priority and the identifier, the last one of each.

`native_round_trip` says that it reads back what a sender wrote, whatever the contents
look like.  What it makes of the identifier is what fits a C string of 255 bytes, an
empty priority counts for nothing, and there is one slip: `atoi` skips a priority of
blanks with the newline behind it, and goes on in whatever follows.  On any bytes the loop
ends; what it makes of them hangs on the memory behind the datagram only if it meets such a
priority (`fieldsMet`).
-/
import SchemaInit.Dbus.Auth

namespace SchemaInit.Sink

open List
open SchemaInit.Dbus (strtol isSpace)

/-- The arguments of `emit`: the tag is a C string, the message is counted. -/
structure Call where
  src : Bytes
  sev : Int
  tag : Bytes
  msg : Bytes

def newline : UInt8 := 10

/-- `atoi`: `strtol` as an `int`. -/
def atoi (s : Bytes) : Int :=
  asInt32 ((strtol s).1 % 2 ^ 32).toNat

/-- `memchr`: the bytes before the first `c` and those behind it. -/
def cut (c : UInt8) : Bytes → Option (Bytes × Bytes)
  | [] => none
  | b :: rest => if b = c then some ([], rest) else (cut c rest).map fun r => (b :: r.1, r.2)

/-- The number that bytes write, the lowest byte first. -/
def le64 (bs : Bytes) : Nat :=
  bs.foldr (fun b v => b.toNat + 256 * v) 0

/-! ## The parser -/

/-- A field of an entry: on a line, or with its length. -/
inductive Field where
  | text (name value : Bytes)
  | binary (name raw : Bytes)

/-- What `parse_native` keeps of the fields so far. -/
structure Entry where
  msg : Option Bytes := none
  tag : Option Bytes := none
  sev : Int := -1

/-- The branch for a line with `=`; `behind` are the bytes after the value. -/
def Entry.text (e : Entry) (name value behind : Bytes) : Entry :=
  if name = cstr "MESSAGE" then { e with msg := some value }
  else if name = cstr "PRIORITY" then
    if value = [] then e else { e with sev := atoi (value ++ behind) }
  else if name = cstr "SYSLOG_IDENTIFIER" then { e with tag := some value }
  else e

/-- The branch for a field with a length. -/
def Entry.binary (e : Entry) (name raw : Bytes) : Entry :=
  if name = cstr "MESSAGE" then { e with msg := some raw } else e

/-- What a field changes. -/
def Entry.take (behind : Bytes) (e : Entry) : Field → Entry
  | .text name value => e.text name value behind
  | .binary name raw => e.binary name raw

/-- The field at `p` and the bytes behind it; `none` where the loop breaks off. -/
def readField (p : Bytes) : Option (Field × Bytes) :=
  match cut newline p with
  | none => none
  | some (line, rest) =>
    match cut (ch '=') line with
    | some (name, value) => some (.text name value, rest)
    | none =>
      if rest.length < 8 then none
      else
        let raw := rest.drop 8
        let blen := le64 (rest.take 8)
        if blen > raw.length then none
        else
          let p := raw.drop blen
          some (.binary line (raw.take blen), if p.head? = some newline then p.tail else p)

/-- The loop of `parse_native` from `p` on.  `beyond` is the memory behind the datagram. -/
def parseLoop (beyond : Bytes) : Nat → (p : Bytes) → Entry → Entry
  | 0, _, e => e
  | fuel + 1, p, e =>
    match readField p with
    | none => e
    | some (f, rest) => parseLoop beyond fuel rest (e.take (newline :: (rest ++ beyond)) f)

/-- The fields that the loop meets. -/
def fieldsMet : Nat → (p : Bytes) → List Field
  | 0, _ => []
  | fuel + 1, p =>
    match readField p with
    | none => []
    | some (f, rest) => f :: fieldsMet fuel rest

/-- The C string that is passed as the tag. -/
def tagbuf (tag : Option Bytes) : Bytes :=
  match tag with
  | some t => if t.length < 256 then cstrAt t 0 else []
  | none => []

/-- `parse_native`: the call of `emit`, if there is one. -/
def parseNative (beyond buf : Bytes) : Option Call :=
  let e := parseLoop beyond buf.length buf {}
  e.msg.map fun msg => { src := cstr "native", sev := e.sev, tag := tagbuf e.tag, msg := msg }

/-! ## What a sender writes -/

/-- `n` in `k` bytes, the lowest first. -/
def leBytes : Nat → Nat → Bytes
  | 0, _ => []
  | k + 1, n => UInt8.ofNat n :: leBytes k (n / 256)

namespace Field

/-- How a sender writes a field. -/
def bytes : Field → Bytes
  | text name value => name ++ ch '=' :: (value ++ [newline])
  | binary name raw => name ++ newline :: (leBytes 8 raw.length ++ (raw ++ [newline]))

/-- A field the protocol has: no `=` or newline in the name, and no newline in a text. -/
def Ok : Field → Prop
  | text name value => newline ∉ name ∧ ch '=' ∉ name ∧ newline ∉ value
  | binary name raw => newline ∉ name ∧ ch '=' ∉ name ∧ raw.length < 2 ^ 64

instance : ∀ f : Field, Decidable f.Ok
  | text .. => inferInstanceAs (Decidable (_ ∧ _ ∧ _))
  | binary .. => inferInstanceAs (Decidable (_ ∧ _ ∧ _))

/-- The message in a field. -/
def message : Field → Option Bytes
  | text name value | binary name value => if name = cstr "MESSAGE" then some value else none

/-- The priority in a field. -/
def priority : Field → Option Int
  | text name value => if name = cstr "PRIORITY" ∧ value ≠ [] then some (atoi value) else none
  | binary .. => none

/-- The identifier in a field. -/
def identifier : Field → Option Bytes
  | text name value => if name = cstr "SYSLOG_IDENTIFIER" then some value else none
  | binary .. => none

end Field

/-- What the last field that has it says. -/
def lastOf {β : Type} (f : Field → Option β) (fs : List Field) : Option β :=
  fs.reverse.findSome? f

/-- The call of `emit` that an entry asks for. -/
def entryCall (fs : List Field) : Option Call :=
  (lastOf Field.message fs).map fun msg =>
    { src := cstr "native"
      sev := (lastOf Field.priority fs).getD (-1)
      tag := tagbuf (lastOf Field.identifier fs)
      msg := msg }

/-- A textual priority of blanks. -/
def BlankPriority (name value : Bytes) : Prop :=
  name = cstr "PRIORITY" ∧ value ≠ [] ∧ ∀ b ∈ value, isSpace b = true

instance (name value : Bytes) : Decidable (BlankPriority name value) :=
  inferInstanceAs (Decidable (_ ∧ _ ∧ _))

/-! ## Lines and lengths -/

theorem cut_append {c : UInt8} {a : Bytes} (h : c ∉ a) (r : Bytes) :
    cut c (a ++ c :: r) = some (a, r) := by
  induction a with
  | nil => simp [cut]
  | cons b a ih =>
    obtain ⟨hb, ha⟩ := not_or.mp (mt mem_cons.mpr h)
    simp [cut, Ne.symm hb, ih ha]

theorem cut_eq_none {c : UInt8} {a : Bytes} (h : c ∉ a) : cut c a = none := by
  induction a with
  | nil => rfl
  | cons b a ih =>
    obtain ⟨hb, ha⟩ := not_or.mp (mt mem_cons.mpr h)
    simp [cut, Ne.symm hb, ih ha]

theorem eq_of_cut {c : UInt8} {s a r : Bytes} (h : cut c s = some (a, r)) : s = a ++ c :: r := by
  induction s generalizing a with
  | nil => cases h
  | cons b s ih =>
    rw [cut] at h
    split at h
    next hb =>
      obtain ⟨rfl, rfl⟩ := Prod.mk.inj (Option.some.inj h)
      rw [hb]
      rfl
    next =>
      obtain ⟨⟨a', r'⟩, hcut, heq⟩ := Option.map_eq_some_iff.mp h
      obtain ⟨rfl, rfl⟩ := Prod.mk.inj heq
      exact congrArg (b :: ·) (ih hcut)

theorem length_leBytes (k n : Nat) : (leBytes k n).length = k := by
  induction k generalizing n with
  | zero => rfl
  | succ k ih => simp [leBytes, ih]

theorem le64_leBytes (k n : Nat) : le64 (leBytes k n) = n % 256 ^ k := by
  induction k generalizing n with
  | zero => simp [leBytes, le64, Nat.mod_one]
  | succ k ih =>
    have hstep : le64 (leBytes (k + 1) n) = n % 256 + 256 * le64 (leBytes k (n / 256)) := by
      simp [leBytes, le64]
    rw [hstep, ih, Nat.pow_succ', Nat.mod_mul]

theorem atoi_append {value : Bytes} (h : ∃ b ∈ value, isSpace b = false) (behind : Bytes) :
    atoi (value ++ newline :: behind) = atoi value := by
  have hdrop : (value ++ newline :: behind).dropWhile isSpace =
      value.dropWhile isSpace ++ newline :: behind := by
    obtain ⟨b, hb, hspace⟩ := h
    rw [dropWhile_append, if_neg]
    rw [List.isEmpty_iff, dropWhile_eq_nil_iff]
    exact fun hall => by simp [hall b hb] at hspace
  have hne : value.dropWhile isSpace ≠ [] := by
    obtain ⟨b, hb, hspace⟩ := h
    rw [ne_eq, dropWhile_eq_nil_iff]
    exact fun hall => by simp [hall b hb] at hspace
  obtain ⟨b, q, hq⟩ := exists_cons_of_ne_nil hne
  have hdigits (q : Bytes) : (q ++ newline :: behind).takeWhile isDigit = q.takeWhile isDigit := by
    rw [takeWhile_append]
    split
    next hall =>
      have hself := (List.takeWhile_prefix isDigit).eq_of_length hall
      simp [hself, show isDigit newline = false by decide]
    next => rfl
  have hdigits' := hdigits (b :: q)
  rw [cons_append] at hdigits'
  have hval : (strtol (value ++ newline :: behind)).1 = (strtol value).1 := by
    unfold strtol
    simp only [hdrop, hq, cons_append, head?_cons, tail_cons]
    split <;> simp only [hdigits, hdigits'] <;> split <;> rfl
  rw [atoi, hval, atoi]

theorem Entry.take_behind {e : Entry} {f : Field}
    (h : ∀ name value, f = .text name value → ¬ BlankPriority name value) (behind : Bytes) :
    e.take (newline :: behind) f = e.take [] f := by
  cases f with
  | binary name raw => rfl
  | text name value =>
    rw [Entry.take, Entry.take, Entry.text, Entry.text]
    split
    · rfl
    · split
      next hname =>
        split
        · rfl
        next hvalue =>
          have hsome : ∃ b ∈ value, isSpace b = false := by
            by_contra hno
            exact h name value rfl ⟨hname, hvalue, by simpa using hno⟩
          rw [atoi_append hsome, append_nil]
      next => rfl

/-! ## The loop -/

theorem readField_shorter {p rest : Bytes} {f : Field} (h : readField p = some (f, rest)) :
    rest.length < p.length := by
  rw [readField] at h
  split at h
  · cases h
  next line tail hline =>
    obtain rfl := eq_of_cut hline
    rw [length_append, length_cons]
    split at h
    · obtain ⟨-, rfl⟩ := Prod.mk.inj (Option.some.inj h)
      omega
    · dsimp only at h
      split_ifs at h <;>
      · obtain ⟨-, rfl⟩ := Prod.mk.inj (Option.some.inj h)
        simp only [length_tail, length_drop]
        omega

/-- The loop ends on any bytes: more steps than bytes make no difference. -/
theorem parseLoop_fuel (beyond : Bytes) {p : Bytes} {fuel fuel' : Nat} (h : p.length ≤ fuel)
    (h' : p.length ≤ fuel') (e : Entry) : parseLoop beyond fuel p e = parseLoop beyond fuel' p e := by
  have hnil (fuel : Nat) (e : Entry) : parseLoop beyond fuel [] e = e := by cases fuel <;> rfl
  induction fuel generalizing p fuel' e with
  | zero =>
    obtain rfl := eq_nil_of_length_eq_zero (Nat.le_zero.mp h)
    rw [hnil, hnil]
  | succ fuel ih =>
    cases fuel' with
    | zero =>
      obtain rfl := eq_nil_of_length_eq_zero (Nat.le_zero.mp h')
      rw [hnil, hnil]
    | succ fuel' =>
      rw [parseLoop, parseLoop]
      split
      · rfl
      next f rest hfield =>
        have hlt := readField_shorter hfield
        exact ih (by omega) (by omega) _

theorem parseLoop_met (beyond : Bytes) {fuel : Nat} {p : Bytes}
    (h : ∀ name value, .text name value ∈ fieldsMet fuel p → ¬ BlankPriority name value)
    (e : Entry) : parseLoop beyond fuel p e = (fieldsMet fuel p).foldl (Entry.take []) e := by
  induction fuel generalizing p e with
  | zero => rfl
  | succ fuel ih =>
    rw [fieldsMet] at h ⊢
    rw [parseLoop]
    split
    · rfl
    next f rest hfield =>
      simp only [hfield] at h
      rw [Entry.take_behind fun name value hf => h name value (hf ▸ mem_cons_self), foldl_cons]
      exact ih (fun name value hf => h name value (mem_cons_of_mem _ hf)) _

/-! ## Reading it back -/

theorem readField_bytes {f : Field} (hok : f.Ok) (rest : Bytes) :
    readField (f.bytes ++ rest) = some (f, rest) := by
  rw [readField]
  cases f with
  | text name value =>
    obtain ⟨hline, heq, hvalue⟩ := hok
    have hsplit : Field.bytes (.text name value) ++ rest =
        (name ++ ch '=' :: value) ++ newline :: rest := by
      simp [Field.bytes]
    have hnl : newline ∉ name ++ ch '=' :: value := by
      simp [hline, hvalue, show newline ≠ ch '=' by decide]
    rw [hsplit, cut_append hnl]
    dsimp only
    rw [cut_append heq]
  | binary name raw =>
    obtain ⟨hline, heq, hlen⟩ := hok
    have hsplit : Field.bytes (.binary name raw) ++ rest =
        name ++ newline :: (leBytes 8 raw.length ++ (raw ++ newline :: rest)) := by
      simp [Field.bytes]
    have h8 := length_leBytes 8 raw.length
    have hle : le64 (leBytes 8 raw.length) = raw.length := by
      rw [le64_leBytes]
      exact Nat.mod_eq_of_lt (by omega)
    rw [hsplit, cut_append hline]
    dsimp only
    rw [cut_eq_none heq]
    rw [if_neg (by simp [h8]), take_left' h8, drop_left' h8, hle, if_neg (by simp), take_left,
      drop_left]
    rfl

theorem fieldsMet_bytes {fs : List Field} (hok : ∀ f ∈ fs, f.Ok) {fuel : Nat}
    (hfuel : (fs.flatMap Field.bytes).length ≤ fuel) :
    fieldsMet fuel (fs.flatMap Field.bytes) = fs := by
  induction fs generalizing fuel with
  | nil => cases fuel <;> rfl
  | cons f fs ih =>
    obtain ⟨hf, hfs⟩ := forall_mem_cons.mp hok
    have hread := readField_bytes hf (fs.flatMap Field.bytes)
    have hlt := readField_shorter hread
    rw [flatMap_cons] at hfuel ⊢
    obtain ⟨fuel, rfl⟩ : ∃ k, fuel = k + 1 := ⟨fuel - 1, by omega⟩
    simp only [fieldsMet, hread]
    rw [ih hfs (by omega)]

theorem foldl_last {β : Type} (get : Entry → Option β) (f : Field → Option β)
    (hstep : ∀ e x, get (Entry.take [] e x) = (f x).or (get e)) (fs : List Field) (e : Entry) :
    get (fs.foldl (Entry.take []) e) = (lastOf f fs).or (get e) := by
  induction fs generalizing e with
  | nil => rfl
  | cons x fs ih =>
    rw [foldl_cons, ih, hstep, lastOf, lastOf, reverse_cons, findSome?_append, Option.or_assoc]
    cases hx : f x <;> simp [hx]

/-- What a sender writes is read back.  On any bytes the loop ends, and it looks at nothing
outside them unless it meets a priority of blanks. -/
theorem native_round_trip {fs : List Field} (hok : ∀ f ∈ fs, f.Ok)
    (hblank : ∀ name value, .text name value ∈ fs → ¬ BlankPriority name value)
    (beyond : Bytes) :
    parseNative beyond (fs.flatMap Field.bytes) = entryCall fs ∧
      ∀ buf,
        (∀ fuel e, buf.length ≤ fuel →
          parseLoop beyond fuel buf e = parseLoop beyond buf.length buf e) ∧
        ((∀ name value, .text name value ∈ fieldsMet buf.length buf → ¬ BlankPriority name value) →
          ∀ beyond', parseNative beyond buf = parseNative beyond' buf) := by
  refine ⟨?_, fun buf => ⟨fun fuel e hfuel => parseLoop_fuel beyond hfuel le_rfl e,
    fun hbuf beyond' => ?_⟩⟩
  · have hmet := fieldsMet_bytes hok le_rfl
    rw [parseNative, parseLoop_met beyond (by rwa [hmet]), hmet]
    generalize hlast : fs.foldl (Entry.take []) {} = e
    have hnames : cstr "PRIORITY" ≠ cstr "MESSAGE" ∧ cstr "SYSLOG_IDENTIFIER" ≠ cstr "MESSAGE" ∧
        cstr "SYSLOG_IDENTIFIER" ≠ cstr "PRIORITY" := by decide
    have hmsg : e.msg = lastOf Field.message fs := by
      rw [← hlast, foldl_last Entry.msg Field.message ?_, Option.or_none]
      rintro e (⟨name, value⟩ | ⟨name, raw⟩)
      · simp only [Entry.take, Entry.text, Field.message]
        split_ifs <;> rfl
      · simp only [Entry.take, Entry.binary, Field.message]
        split_ifs <;> rfl
    have htag : e.tag = lastOf Field.identifier fs := by
      rw [← hlast, foldl_last Entry.tag Field.identifier ?_, Option.or_none]
      rintro e (⟨name, value⟩ | ⟨name, raw⟩)
      · simp only [Entry.take, Entry.text, Field.identifier]
        split_ifs <;> simp_all
      · simp only [Entry.take, Entry.binary, Field.identifier]
        split_ifs <;> rfl
    have hsev : some e.sev = some ((lastOf Field.priority fs).getD (-1)) := by
      rw [← hlast, foldl_last (fun e => some e.sev) Field.priority ?_]
      · cases lastOf Field.priority fs <;> rfl
      rintro e (⟨name, value⟩ | ⟨name, raw⟩)
      · simp only [Entry.take, Entry.text, Field.priority, append_nil]
        split_ifs <;> simp_all
      · simp only [Entry.take, Entry.binary, Field.priority]
        split_ifs <;> rfl
    rw [entryCall, hmsg, htag, Option.some.inj hsev]
  · rw [parseNative, parseNative, parseLoop_met beyond hbuf, parseLoop_met beyond' hbuf]

theorem native_round_trip_nested :
    let fs : List Field := [.text (cstr "PRIORITY") (cstr "3"),
      .binary (cstr "MESSAGE") (cstr "a\nPRIORITY=7\n")]
    parseNative [] (fs.flatMap Field.bytes) = entryCall fs :=
  (native_round_trip (by decide) (by simp; decide) []).1

theorem identifier_cut :
    let fs : List Field :=
      [.text (cstr "SYSLOG_IDENTIFIER") [97, 0, 98], .text (cstr "MESSAGE") (cstr "x")]
    (∀ f ∈ fs, f.Ok) ∧ (parseNative [] (fs.flatMap Field.bytes)).map Call.tag = some [97] ∧
      lastOf Field.identifier fs = some [97, 0, 98] := by
  decide

end SchemaInit.Sink
