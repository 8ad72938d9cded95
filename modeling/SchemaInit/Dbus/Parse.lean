/-
# `SchemaInit.Dbus.Parse` — what `sdbus_wire_parse` makes of a buffer

The parser decides by the first 16 bytes how long the message is, waits until that
many are there, and then looks at nothing behind them.  So what it says of a
message does not change with the bytes that follow (`sdbusWireParse_append`), and
before the message is complete it says nothing.

Waiting is all that a 0 means.  The header fields are not looked at before the
whole message is there, and below 16 bytes not even the first byte is: a buffer
that no message starts with waits like any other.
-/
import SchemaInit.Dbus.Wire

namespace SchemaInit.Dbus

open List

variable (buf tail : Bytes) (off : Nat) (le : Bool)

theorem le_align {a : Nat} (ha : 0 < a) : off ≤ align off a := by
  have hdiv := Nat.div_add_mod (off + (a - 1)) a
  have hmod := Nat.mod_lt (off + (a - 1)) ha
  rw [align, Nat.mul_comm]
  omega

/-! ## One header field -/

/-- One round of the loop over the header fields, at an aligned offset: the code, the value
and the offset behind it. -/
def fieldAt (headerEnd off : Nat) : Option (Nat × FieldVal × Nat) :=
  let code := (byteAt buf off).toNat
  let siglen := (byteAt buf (off + 1)).toNat
  let sig := byteAt buf (off + 2)
  if off + 2 + siglen + 1 > headerEnd then none
  else
    match parseValue buf le headerEnd (off + 2 + siglen + 1) sig with
    | none => none
    | some (v, off) => if (fieldType code).isSome ∧ fieldType code ≠ some sig then none else some (code, v, off)

def MoreFields (headerEnd off : Nat) : Prop := off < headerEnd ∧ align off 8 + 2 ≤ headerEnd

instance (headerEnd off : Nat) : Decidable (MoreFields headerEnd off) := by unfold MoreFields; infer_instance

theorem parseFields_succ (headerEnd fuel : Nat) (m : WireMsg) : parseFields buf le headerEnd (fuel + 1) off m =
      if MoreFields headerEnd off then
        match fieldAt buf le headerEnd (align off 8) with
        | none => none
        | some (code, v, off) => parseFields buf le headerEnd fuel off (m.setField code v)
      else some m := by
  rw [parseFields]
  unfold fieldAt
  dsimp only
  by_cases hoff : off < headerEnd
  · by_cases hroom : align off 8 + 2 > headerEnd
    · have hmore : ¬ MoreFields headerEnd off := fun h => absurd h.2 (by omega)
      rw [if_pos hoff, if_pos hroom, if_neg hmore]
    · have hmore : MoreFields headerEnd off := ⟨hoff, by omega⟩
      rw [if_pos hoff, if_neg hroom, if_pos hmore]
      split
      · rfl
      · cases parseValue buf le headerEnd (align off 8 + 2 + (byteAt buf (align off 8 + 1)).toNat + 1)
          (byteAt buf _) with
        | none => rfl
        | some p =>
          dsimp only
          split
          · rfl
          · rfl
  · rw [if_neg hoff, if_neg fun h => hoff h.1]

variable {buf le}

theorem parseValue_some {headerEnd off off' : Nat} {sig : UInt8} {v : FieldVal}
    (h : parseValue buf le headerEnd off sig = some (v, off')) :
    off < off' ∧ off' ≤ headerEnd ∧
      ∀ s, v = .str s → ∃ i j, i ≤ j ∧ j < headerEnd ∧ byteAt buf j = 0 ∧ s = cstrAt buf i := by
  have hal := le_align off (show 0 < 4 by decide)
  unfold parseValue at h
  dsimp only at h
  split_ifs at h with hs hroom hlen hz hg hgroom hglen hgz hu huroom
  · obtain ⟨rfl, rfl⟩ := Prod.mk.inj (Option.some.inj h)
    refine ⟨by omega, by omega, ?_⟩
    rintro s ⟨⟩
    exact ⟨_, _, by omega, by omega, not_not.mp hz, rfl⟩
  · obtain ⟨rfl, rfl⟩ := Prod.mk.inj (Option.some.inj h)
    refine ⟨by omega, by omega, ?_⟩
    rintro s ⟨⟩
    exact ⟨_, _, by omega, by omega, not_not.mp hgz, rfl⟩
  · obtain ⟨rfl, rfl⟩ := Prod.mk.inj (Option.some.inj h)
    exact ⟨by omega, by omega, fun s hs => nomatch hs⟩

theorem fieldAt_some {headerEnd off off' code : Nat} {v : FieldVal}
    (h : fieldAt buf le headerEnd off = some (code, v, off')) :
    off < off' ∧ off' ≤ headerEnd ∧
      ∀ s, v = .str s → ∃ i j, i ≤ j ∧ j < headerEnd ∧ byteAt buf j = 0 ∧ s = cstrAt buf i := by
  unfold fieldAt at h
  dsimp only at h
  split at h
  · cases h
  · split at h
    · cases h
    case h_2 v' off'' hv =>
      split at h
      · cases h
      · cases h
        obtain ⟨hlt, hle, hstr⟩ := parseValue_some hv
        exact ⟨by omega, hle, hstr⟩

/-! ## The loop -/

inductive FieldsRun (buf : Bytes) (le : Bool) (headerEnd : Nat) : Nat → WireMsg → Option WireMsg → Prop
  | stop {off : Nat} {m : WireMsg} (h : ¬ MoreFields headerEnd off) : FieldsRun buf le headerEnd off m (some m)
  | bad {off : Nat} {m : WireMsg} (h : MoreFields headerEnd off)
      (hfield : fieldAt buf le headerEnd (align off 8) = none) : FieldsRun buf le headerEnd off m none
  | field {off off' code : Nat} {m : WireMsg} {v : FieldVal} {r : Option WireMsg} (h : MoreFields headerEnd off)
      (hfield : fieldAt buf le headerEnd (align off 8) = some (code, v, off'))
      (hrest : FieldsRun buf le headerEnd off' (m.setField code v) r) : FieldsRun buf le headerEnd off m r

theorem fieldsRun_parseFields {headerEnd fuel off : Nat} (hfuel : headerEnd ≤ off + fuel) (m : WireMsg) :
    FieldsRun buf le headerEnd off m (parseFields buf le headerEnd fuel off m) := by
  induction fuel generalizing off m with
  | zero => exact .stop fun h => by have := h.1; omega
  | succ fuel ih =>
    rw [parseFields_succ]
    by_cases hmore : MoreFields headerEnd off
    · rw [if_pos hmore]
      cases hfield : fieldAt buf le headerEnd (align off 8) with
      | none => exact .bad hmore hfield
      | some p =>
        have hoff := le_align off (show 0 < 8 by decide)
        have hnext := (fieldAt_some hfield).1
        exact .field hmore hfield (ih (by omega) _)
    · rw [if_neg hmore]
      exact .stop hmore

theorem FieldsRun.induct {headerEnd : Nat} {P : WireMsg → Prop} {off : Nat} {m : WireMsg} {r : Option WireMsg}
    (h : FieldsRun buf le headerEnd off m r)
    (hset : ∀ {m off off' code v}, fieldAt buf le headerEnd off = some (code, v, off') → P m → P (m.setField code v))
    (hm : P m) : ∀ m' ∈ r, P m' := by
  induction h with
  | stop h =>
    rintro m' ⟨⟩
    exact hm
  | bad h hfield => exact fun m' h => nomatch h
  | field h hfield hrest ih => exact ih (hset hfield hm)

/-! ## What the parser reads -/

variable (buf le)

theorem rdU32_append {off : Nat} (h : off + 4 ≤ buf.length) : rdU32 (buf ++ tail) off le = rdU32 buf off le := by
  have hbyte : ∀ i, i < 4 → byteAt (buf ++ tail) (off + i) = byteAt buf (off + i) :=
    fun i hi => byteAt_append_left buf tail (by omega)
  simp only [rdU32, hbyte 0 (by omega), hbyte 1 (by omega), hbyte 2 (by omega), hbyte 3 (by omega)]

theorem parseValue_append {headerEnd : Nat} (h : headerEnd ≤ buf.length) (off : Nat) (sig : UInt8) :
    parseValue (buf ++ tail) le headerEnd off sig = parseValue buf le headerEnd off sig := by
  unfold parseValue
  dsimp only
  split
  · -- a string: its length, then its bytes up to a terminator inside the header
    split
    · rfl
    · rw [rdU32_append buf tail le (by omega)]
      split
      · rfl
      case isFalse hlen =>
        rw [byteAt_append_left buf tail (by omega)]
        split
        · rfl
        case isFalse hz =>
          rw [cstrAt_append buf tail (by omega) (by omega) (not_not.mp hz)]
  · split
    · split
      · rfl
      · rw [byteAt_append_left buf tail (by omega)]
        split
        · rfl
        case isFalse hlen =>
          rw [byteAt_append_left buf tail (by omega)]
          split
          · rfl
          case isFalse hz =>
            rw [cstrAt_append buf tail (by omega) (by omega) (not_not.mp hz)]
    · split
      · split
        · rfl
        · rw [rdU32_append buf tail le (by omega)]
      · rfl

theorem fieldAt_append {headerEnd off : Nat} (h : headerEnd ≤ buf.length) (hroom : off + 2 ≤ headerEnd) :
    fieldAt (buf ++ tail) le headerEnd off = fieldAt buf le headerEnd off := by
  unfold fieldAt
  dsimp only
  rw [byteAt_append_left buf tail (i := off) (by omega), byteAt_append_left buf tail (by omega)]
  split
  · rfl
  · rw [byteAt_append_left buf tail (by omega), parseValue_append buf tail le h]

theorem parseFields_append {headerEnd : Nat} (h : headerEnd ≤ buf.length) (fuel off : Nat) (m : WireMsg) :
    parseFields (buf ++ tail) le headerEnd fuel off m = parseFields buf le headerEnd fuel off m := by
  induction fuel generalizing off m with
  | zero => rfl
  | succ fuel ih =>
    rw [parseFields_succ, parseFields_succ]
    by_cases hmore : MoreFields headerEnd off
    · rw [if_pos hmore, if_pos hmore, fieldAt_append buf tail le h hmore.2]
      simp [ih]
    · rw [if_neg hmore, if_neg hmore]

theorem parseArg0_append (m : WireMsg) (h : m.bodyOffset + m.bodyLen ≤ buf.length) :
    parseArg0 (buf ++ tail) m = parseArg0 buf m := by
  unfold parseArg0
  split
  · rfl
  · split
    · dsimp only
      rw [rdU32_append buf tail _ (by omega)]
      by_cases hlen : rdU32 buf m.bodyOffset m.endianLe < m.bodyLen - 4
      · rw [byteAt_append_left buf tail (by omega)]
        split
        case isTrue hz => rw [cstrAt_append buf tail (by omega) (by omega) hz.2]
        · rfl
      · rw [if_neg (fun h => hlen h.1), if_neg (fun h => hlen h.1)]
    · rfl

/-! ## The fixed part -/

def fixedHeader : WireMsg :=
  let le := decide (byteAt buf 0 = ch 'l')
  let bodyOffset := align (16 + rdU32 buf 12 le) 8
  { endianLe := le, type := (byteAt buf 1).toNat, flags := (byteAt buf 2).toNat,
    serial := rdU32 buf 8 le, replySerial := none, path := none, interface := none,
    member := none, errorName := none, destination := none, sender := none,
    signature := none, arg0 := none, unixFds := none,
    bodyOffset := bodyOffset, bodyLen := rdU32 buf 4 le, totalLen := bodyOffset + rdU32 buf 4 le }

def headerEndOf : Nat := 16 + rdU32 buf 12 (fixedHeader buf).endianLe

def GoodStart : Prop :=
  (byteAt buf 0 = ch 'l' ∨ byteAt buf 0 = ch 'B') ∧
    rdU32 buf 12 (fixedHeader buf).endianLe ≤ maxMsg ∧ (fixedHeader buf).bodyLen ≤ maxMsg ∧
    (fixedHeader buf).totalLen ≤ maxMsg

instance : Decidable (GoodStart buf) := by unfold GoodStart; infer_instance

def parseBody : Parsed :=
  match parseFields buf (fixedHeader buf).endianLe (headerEndOf buf) (headerEndOf buf) 16 (fixedHeader buf) with
  | none => .corrupt
  | some m => .complete { m with arg0 := parseArg0 buf m }

theorem sdbusWireParse_eq :
    sdbusWireParse buf =
      if buf.length < 16 then .incomplete
      else if ¬ GoodStart buf then .corrupt
      else if buf.length < (fixedHeader buf).totalLen then .incomplete
      else parseBody buf := by
  unfold sdbusWireParse
  dsimp only
  by_cases hshort : buf.length < 16
  · rw [if_pos hshort, if_pos hshort]
  rw [if_neg hshort, if_neg hshort]
  by_cases hgood : GoodStart buf
  · obtain ⟨hfirst, hfarr, hbody, htotal⟩ := id hgood
    rw [if_neg (not_not.mpr hgood), if_neg (by tauto)]
    exact (if_neg (not_or.mpr ⟨not_lt.mpr hfarr, not_lt.mpr hbody⟩)).trans (if_neg (not_lt.mpr htotal))
  · rw [if_pos hgood]
    split_ifs with hfirst hlens htotal
    · rfl
    · rfl
    · rfl
    all_goals
      rw [not_or, not_lt, not_lt] at hlens
      exact absurd ⟨by tauto, hlens.1, hlens.2, not_lt.mp htotal⟩ hgood

theorem fixedHeader_append (h : 16 ≤ buf.length) : fixedHeader (buf ++ tail) = fixedHeader buf := by
  unfold fixedHeader
  dsimp only
  rw [byteAt_append_left buf tail (by omega), byteAt_append_left buf tail (by omega),
    byteAt_append_left buf tail (by omega), rdU32_append buf tail _ (by omega), rdU32_append buf tail _ (by omega),
    rdU32_append buf tail _ (by omega)]

theorem headerEndOf_append (h : 16 ≤ buf.length) : headerEndOf (buf ++ tail) = headerEndOf buf := by
  rw [headerEndOf, fixedHeader_append buf tail h, rdU32_append buf tail _ (by omega), headerEndOf]

theorem goodStart_append (h : 16 ≤ buf.length) : GoodStart (buf ++ tail) ↔ GoodStart buf := by
  rw [GoodStart, GoodStart, fixedHeader_append buf tail h, byteAt_append_left buf tail (by omega),
    rdU32_append buf tail _ (by omega)]

theorem headerEndOf_le : headerEndOf buf ≤ (fixedHeader buf).totalLen :=
  (le_align _ (by decide)).trans (Nat.le_add_right _ _)

/-! ## The parser's bounds -/

def WireMsg.extent (m : WireMsg) : Nat × Nat × Nat :=
  (m.bodyOffset, m.bodyLen, m.totalLen)

theorem WireMsg.extent_setField (m : WireMsg) (code : Nat) (v : FieldVal) : (m.setField code v).extent = m.extent := by
  unfold WireMsg.setField
  split <;> rfl

variable {buf tail le}

theorem FieldsRun.extent {headerEnd off : Nat} {m m' : WireMsg} (h : FieldsRun buf le headerEnd off m (some m')) :
    m'.extent = m.extent :=
  h.induct (P := fun m' => m'.extent = m.extent) (fun _ ih => (WireMsg.extent_setField ..).trans ih) rfl m' rfl

theorem fieldsRun_fixedHeader : FieldsRun buf (fixedHeader buf).endianLe (headerEndOf buf) 16 (fixedHeader buf)
    (parseFields buf (fixedHeader buf).endianLe (headerEndOf buf) (headerEndOf buf) 16 (fixedHeader buf)) :=
  fieldsRun_parseFields (Nat.le_add_left _ _) _

theorem parseBody_complete {m : WireMsg} (h : parseBody buf = .complete m) :
    ∃ m', FieldsRun buf (fixedHeader buf).endianLe (headerEndOf buf) 16 (fixedHeader buf) (some m') ∧
      m = { m' with arg0 := parseArg0 buf m' } := by
  have hrun := @fieldsRun_fixedHeader buf
  unfold parseBody at h
  split at h
  · cases h
  case h_2 m' hm' =>
    rw [hm'] at hrun
    cases h
    exact ⟨m', hrun, rfl⟩

theorem sdbusWireParse_start {m : WireMsg} (h : sdbusWireParse buf = .complete m) :
    16 ≤ buf.length ∧ GoodStart buf ∧ (fixedHeader buf).totalLen ≤ buf.length ∧ parseBody buf = .complete m ∧
      m.extent = (fixedHeader buf).extent := by
  rw [sdbusWireParse_eq] at h
  split_ifs at h with hshort hgood hlen
  obtain ⟨m', hrun, rfl⟩ := parseBody_complete h
  exact ⟨by omega, hgood, by omega, h, hrun.extent⟩

theorem sdbusWireParse_complete {m : WireMsg} (h : sdbusWireParse buf = .complete m) :
    16 ≤ buf.length ∧ m.totalLen = m.bodyOffset + m.bodyLen ∧ m.totalLen ≤ buf.length := by
  obtain ⟨hlong, -, hfits, -, hext⟩ := sdbusWireParse_start h
  simp only [WireMsg.extent, Prod.mk.injEq] at hext
  obtain ⟨hoffset, hbody, htotal⟩ := hext
  exact ⟨hlong, by rw [htotal, hoffset, hbody]; rfl, htotal ▸ hfits⟩

theorem le_totalLen {m : WireMsg} (h : sdbusWireParse buf = .complete m) : 16 ≤ m.totalLen := by
  have htotal : m.totalLen = (fixedHeader buf).totalLen := congrArg (·.2.2) (sdbusWireParse_start h).2.2.2.2
  rw [htotal]
  exact (Nat.le_add_right 16 _).trans (headerEndOf_le buf)

theorem parseBody_append (h : 16 ≤ buf.length) (hfits : (fixedHeader buf).totalLen ≤ buf.length) :
    parseBody (buf ++ tail) = parseBody buf := by
  have hrun := @fieldsRun_fixedHeader buf
  unfold parseBody
  rw [fixedHeader_append buf tail h, headerEndOf_append buf tail h,
    parseFields_append buf tail _ ((headerEndOf_le buf).trans hfits)]
  cases hm : parseFields buf (fixedHeader buf).endianLe (headerEndOf buf) (headerEndOf buf) 16 (fixedHeader buf) with
  | none => rfl
  | some m =>
    have hext := (hm ▸ hrun).extent
    simp only [WireMsg.extent, Prod.mk.injEq] at hext
    dsimp only
    rw [parseArg0_append buf tail m (by rw [hext.1, hext.2.1]; exact hfits)]

theorem sdbusWireParse_incomplete_iff : sdbusWireParse buf = .incomplete ↔
      buf.length < 16 ∨ GoodStart buf ∧ buf.length < (fixedHeader buf).totalLen := by
  rw [sdbusWireParse_eq]
  split_ifs with hshort hgood hlen
  · simp [hshort]
  · simp [hshort, hgood, hlen]
  · simp only [hshort, hlen, and_false, or_false, iff_false]
    unfold parseBody
    split <;> simp
  · simp [hshort, hgood]

theorem sdbusWireParse_append (h : sdbusWireParse buf ≠ .incomplete) :
    sdbusWireParse (buf ++ tail) = sdbusWireParse buf := by
  rw [Ne, sdbusWireParse_incomplete_iff, not_or, not_lt, not_and, not_lt] at h
  obtain ⟨hlong, hfits⟩ := h
  rw [sdbusWireParse_eq, sdbusWireParse_eq, length_append, if_neg (by omega), if_neg (not_lt.mpr hlong)]
  by_cases hgood : GoodStart buf
  · have hgood' : GoodStart (buf ++ tail) := (goodStart_append buf tail hlong).mpr hgood
    specialize hfits hgood
    rw [if_neg (not_not.mpr hgood'), if_neg (not_not.mpr hgood), fixedHeader_append buf tail hlong, if_neg (by omega),
      if_neg (by omega), parseBody_append hlong hfits]
  · rw [if_pos ((goodStart_append buf tail hlong).not.mpr hgood), if_pos hgood]

theorem sdbusWireParse_take {m : WireMsg} {k : Nat} (h : sdbusWireParse buf = .complete m) (hk : k < m.totalLen) :
    sdbusWireParse (buf.take k) = .incomplete := by
  obtain ⟨-, hgood, hfits, -, hext⟩ := sdbusWireParse_start h
  simp only [WireMsg.extent, Prod.mk.injEq] at hext
  have hlen : (buf.take k).length = k := length_take_of_le (by omega)
  rw [sdbusWireParse_incomplete_iff]
  by_cases hshort : k < 16
  · exact .inl (hlen.symm ▸ hshort)
  · have hsplit := take_append_drop k buf
    rw [← hsplit, goodStart_append _ _ (by omega)] at hgood
    refine .inr ⟨hgood, ?_⟩
    rw [← fixedHeader_append _ (buf.drop k) (by omega), hsplit]
    omega

/-! ## Strings -/

def WireMsg.Points (m : WireMsg) (s : Bytes) : Prop :=
  some s ∈ [m.path, m.interface, m.member, m.errorName, m.destination, m.sender, m.signature, m.arg0]

theorem WireMsg.points_setField {m : WireMsg} {code : Nat} {v : FieldVal} {s : Bytes}
    (h : (m.setField code v).Points s) : m.Points s ∨ v = .str s := by
  unfold WireMsg.setField at h
  split at h <;> simp only [WireMsg.Points, mem_cons, not_mem_nil, or_false, Option.some.injEq,
    FieldVal.str.injEq] at h ⊢ <;> tauto

theorem FieldsRun.points {headerEnd off : Nat} {m m' : WireMsg} (h : FieldsRun buf le headerEnd off m (some m'))
    (hm : ∀ s, ¬ m.Points s) {s : Bytes} (hs : m'.Points s) :
    ∃ i j, i ≤ j ∧ j < headerEnd ∧ byteAt buf j = 0 ∧ s = cstrAt buf i := by
  refine h.induct (P := fun m => ∀ s, m.Points s → ∃ i j, i ≤ j ∧ j < headerEnd ∧ byteAt buf j = 0 ∧ s = cstrAt buf i)
    (fun hfield ih s hs => ?_) (fun s hs => absurd hs (hm s)) m' rfl s hs
  rcases WireMsg.points_setField hs with hs | hs
  · exact ih s hs
  · exact (fieldAt_some hfield).2.2 s hs

theorem parseArg0_some {m : WireMsg} {s : Bytes} (h : parseArg0 buf m = some s) :
    ∃ i j, i ≤ j ∧ j < m.bodyOffset + m.bodyLen ∧ byteAt buf j = 0 ∧ s = cstrAt buf i := by
  unfold parseArg0 at h
  split at h
  · cases h
  · dsimp only at h
    split_ifs at h with hsig hlen
    obtain rfl := Option.some.inj h
    exact ⟨_, _, by omega, by omega, hlen.2, rfl⟩

theorem takeWhile_prefix_zero {l : Bytes} (h : 0 ∈ l) : l.takeWhile (· ≠ 0) ++ [0] <+: l := by
  induction l with
  | nil => cases h
  | cons b l ih =>
    by_cases hb : b = 0
    · simp [hb]
    · have hl : (0 : UInt8) ∈ l := (mem_cons.mp h).resolve_left (Ne.symm hb)
      simpa [hb, takeWhile_cons] using ih hl

theorem cstrAt_infix {i j n : Nat} (hij : i ≤ j) (hj : j < n) (hn : n ≤ buf.length) (hz : byteAt buf j = 0) :
    cstrAt buf i ++ [0] <:+: buf.take n := by
  have hlen : (buf.take n).length = n := length_take_of_le hn
  have hsplit := take_append_drop n buf
  have hz' : byteAt (buf.take n) j = 0 := by
    rwa [← hsplit, byteAt_append_left _ _ (by omega)] at hz
  have hmem : (0 : UInt8) ∈ (buf.take n).drop i := by
    rw [mem_drop_iff_getElem]
    refine ⟨j - i, by omega, ?_⟩
    have hget : byteAt (buf.take n) j = (buf.take n)[j] := by simp [byteAt, hj, hj.trans_le hn]
    simpa [show i + (j - i) = j by omega] using hget.symm.trans hz'
  have hsame : cstrAt buf i = cstrAt (buf.take n) i := by
    conv_lhs => rw [← hsplit]
    exact cstrAt_append _ _ hij (by omega) hz'
  rw [hsame]
  exact (takeWhile_prefix_zero hmem).isInfix.trans (drop_suffix i _).isInfix

theorem sdbusWireParse_points {m : WireMsg} (h : sdbusWireParse buf = .complete m) {s : Bytes} (hs : m.Points s) :
    0 ∉ s ∧ s ++ [0] <:+: buf.take m.totalLen := by
  obtain ⟨-, -, hfits, hbody, hext⟩ := sdbusWireParse_start h
  obtain ⟨m', hrun, rfl⟩ := parseBody_complete hbody
  simp only [WireMsg.extent, Prod.mk.injEq] at hext
  obtain ⟨hoffset, hlen, htotal⟩ := hext
  have hwithin (n : Nat) (hn : n ≤ m'.totalLen)
      (h : ∃ i j, i ≤ j ∧ j < n ∧ byteAt buf j = 0 ∧ s = cstrAt buf i) : 0 ∉ s ∧
        s ++ [0] <:+: buf.take m'.totalLen := by
    obtain ⟨i, j, hij, hj, hz, rfl⟩ := h
    exact ⟨zero_notMem_cstrAt buf i, cstrAt_infix hij (by omega) (by omega) hz⟩
  have hor : m'.Points s ∨ parseArg0 buf m' = some s := by
    simp only [WireMsg.Points, mem_cons, not_mem_nil, or_false] at hs ⊢
    tauto
  rcases hor with hs | hs
  · exact hwithin _ (htotal ▸ headerEndOf_le buf)
      (hrun.points (fun s hs => by simp [WireMsg.Points, fixedHeader] at hs) hs)
  · exact hwithin _ (by rw [htotal, hoffset, hlen]; exact le_refl _) (parseArg0_some hs)

/-! ## The contract -/

/-- For every buffer: the loop over the header fields ends; a message that is found lies in
the buffer with all its strings and is found whatever follows it, and not before it is
there; and a 0 says that the fixed part is not there yet, or announces more than is. -/
theorem sdbusWireParse_contract (buf : Bytes) :
    (∀ le headerEnd m, FieldsRun buf le headerEnd 16 m (parseFields buf le headerEnd headerEnd 16 m)) ∧
      (∀ m, sdbusWireParse buf = .complete m → 16 ≤ m.totalLen ∧ m.totalLen ≤ buf.length ∧
          (∀ s, m.Points s → 0 ∉ s ∧ s ++ [0] <:+: buf.take m.totalLen) ∧
          (∀ more, sdbusWireParse (buf ++ more) = .complete m) ∧
          ∀ k < m.totalLen, sdbusWireParse (buf.take k) = .incomplete) ∧
      (sdbusWireParse buf = .incomplete ↔
        buf.length < 16 ∨ GoodStart buf ∧ buf.length < (fixedHeader buf).totalLen) := by
  refine ⟨fun le headerEnd m => fieldsRun_parseFields (Nat.le_add_left _ _) m, fun m h => ?_,
    sdbusWireParse_incomplete_iff⟩
  refine ⟨le_totalLen h, (sdbusWireParse_complete h).2.2, fun s hs => sdbusWireParse_points h hs, fun more => ?_,
    fun k hk => sdbusWireParse_take h hk⟩
  rw [sdbusWireParse_append (by rw [h]; simp), h]

/-- A byte that starts no message: the parser waits, and no message will come of it. -/
theorem waits_in_vain :
    sdbusWireParse (cstr "x") = .incomplete ∧ ∀ more m, sdbusWireParse (cstr "x" ++ more) ≠ .complete m := by
  refine ⟨by decide, fun more m h => ?_⟩
  have hgood := (sdbusWireParse_start h).2.1.1
  exact absurd hgood (by rw [byteAt_append_left _ _ (by decide)]; decide)

end SchemaInit.Dbus
