/-
# `SchemaInit.Dbus.Identity` — the identity in an authentication line

What an identity should be is said over the whole line: `EncodesUid uid id` holds
when `id` is the hexadecimal encoding of a non-empty digit string whose value is
`uid`.  What the source reads is less and more than that: the line is copied
into 512 bytes and read as a C string, at most 63 decoded bytes are kept and
read as a C string again, and `strtol` takes blanks and a sign in front of the
digits.  `Spelled uid seen` says in terms of numerals what it then accepts.

`accepts_iff` ties `Spelled` to `sdbus__hex_uid`; `spelled_iff_encodes` says that
the two agree on an identity that is read whole and begins with neither a blank
nor a sign.
-/
import SchemaInit.Dbus.Numeral

namespace SchemaInit.Dbus

open Option List

variable {uid : Nat} {a raw seen : Bytes}
variable (guid : Bytes)

/-! ## What an identity should be -/

def hexText : Bytes → Option Bytes
  | [] => some []
  | [_] => none
  | a :: b :: rest =>
    match hexDigit a, hexDigit b with
    | some hi, some lo => (hexText rest).map (UInt8.ofNat (16 * hi + lo) :: ·)
    | _, _ => none

def EncodesUid (uid : Nat) (id : Bytes) : Prop :=
  ∃ ds, hexText id = some ds ∧ ds ≠ [] ∧ (∀ b ∈ ds, isDigit b = true) ∧ decValue ds = uid

/-! ## What the source reads -/

/-- The decoded text as `strtol` sees it, for an even number of hexadecimal digits. -/
def textRead (seen : Bytes) : Option Bytes :=
  if seen.length % 2 = 1 then none else (hexText (seen.take 126)).map (·.takeWhile (· ≠ 0))

/-- The text read spells `uid`, or -2, as `strtol` reads it; no text at all is 0. -/
def Spelled (uid : Nat) (seen : Bytes) : Prop :=
  ∃ t, textRead seen = some t ∧
    (t = [] ∧ uid = 0 ∨ ∃ n : Numeral, t = n.text ∧ (n.value = uid ∨ n.value = -2))

theorem hexText_length {id t : Bytes} (h : hexText id = some t) : id.length = 2 * t.length := by
  fun_induction hexText id generalizing t with
  | case1 => simp_all
  | case2 => cases h
  | case3 a b rest hi lo hhi hlo ih =>
    obtain ⟨t', ht', rfl⟩ := map_eq_some_iff.mp h
    have := ih ht'
    simp only [length_cons]
    omega
  | case4 => cases h

theorem hexDecode_eq (room : Nat) (hex : Bytes) (heven : hex.length % 2 = 0) :
    hexDecode room hex = hexText (hex.take (2 * room)) := by
  induction room generalizing hex with
  | zero => simp [hexDecode, hexText]
  | succ room ih =>
    match hex, heven with
    | [], _ => simp [hexDecode, hexText]
    | [b], heven => simp at heven
    | a :: b :: rest, heven =>
      have hrest : rest.length % 2 = 0 := by
        simp only [length_cons] at heven
        omega
      simp only [Nat.mul_succ, take_succ_cons, hexText, hexDecode]
      cases hexDigit a <;> cases hexDigit b <;> simp [ih rest hrest]

theorem clampLong_eq_iff {v : Int} {k : Int} (hlo : longMin < k) (hhi : k < longMax) : clampLong v = k ↔ v = k := by
  simp only [clampLong]
  omega

theorem accepts_iff (huid : uid < 2 ^ 32) (hne : seen ≠ []) : (hexUid seen).accepts uid = true ↔ Spelled uid seen := by
  have hclamp (v : Int) : (clampLong v = uid ↔ v = uid) ∧ (clampLong v = -1 ↔ v = -1) ∧
      (clampLong v = -2 ↔ v = -2) := by
    refine ⟨clampLong_eq_iff ?_ ?_, clampLong_eq_iff ?_ ?_, clampLong_eq_iff ?_ ?_⟩ <;>
      simp only [longMin, longMax] <;> omega
  simp only [hexUid, if_neg hne, Spelled, textRead]
  by_cases hodd : seen.length % 2 = 1
  · simp [hodd, Claim.accepts]
  rw [if_neg hodd, if_neg hodd, hexDecode_eq 63 seen (by omega)]
  cases hdec : hexText (seen.take 126) with
  | none => simp [Claim.accepts]
  | some dec =>
    simp only [map_some, some.injEq, exists_eq_left']
    generalize dec.takeWhile (· ≠ 0) = t
    constructor
    · intro hacc
      by_cases hbad : (strtol t).2 ≠ [] ∨ (strtol t).1 = -1
      · simp [hbad, Claim.accepts] at hacc
      push Not at hbad
      rcases strtol_whole hbad.1 with rfl | ⟨n, rfl, hv⟩
      · left
        have huid0 : (0 : Int) = uid := by simpa [strtol, Claim.accepts] using hacc
        exact ⟨rfl, by omega⟩
      · right
        refine ⟨n, rfl, ?_⟩
        by_cases h2 : n.value = -2
        · exact .inr h2
        · left
          rw [strtol_of_text] at hbad hacc
          have hneg : clampLong n.value ≠ -2 := by rwa [Ne, (hclamp _).2.2]
          simp only [hbad.2, hneg, ne_eq, not_true_eq_false, or_false, if_false, Claim.accepts,
            decide_eq_true_eq] at hacc
          exact (hclamp _).1.mp hacc
    · rintro (⟨rfl, rfl⟩ | ⟨n, rfl, hv⟩)
      · simp [strtol, Claim.accepts]
      · rw [strtol_of_text]
        have h1 : clampLong n.value ≠ -1 := by
          rw [Ne, (hclamp _).2.1]
          omega
        simp only [h1, ne_eq, not_true_eq_false, or_false, if_false]
        rcases hv with hv | hv
        · have huid' : clampLong n.value = uid := (hclamp _).1.mpr hv
          have h2 : (uid : Int) ≠ -2 := by omega
          simp [huid', h2, Claim.accepts]
        · simp [(hclamp _).2.2.mpr hv, Claim.accepts]

/-! ## An identity that is read whole -/

def Loose (seen : Bytes) : Prop :=
  ∃ t b, textRead seen = some t ∧ t.head? = some b ∧ (isSpace b = true ∨ b = ch '+' ∨ b = ch '-')

def KeptWhole (id : Bytes) : Prop :=
  id.length ≤ 126 ∧ ∀ t, hexText id = some t → (0 : UInt8) ∉ t

theorem textRead_of_keptWhole {id : Bytes} (h : KeptWhole id) : textRead id = hexText id := by
  cases ht : hexText id with
  | none =>
    rw [textRead, take_of_length_le h.1, ht]
    simp
  | some t =>
    have hlen := hexText_length ht
    have hall : t.takeWhile (· ≠ 0) = t := by
      rw [takeWhile_eq_self_iff]
      intro b hb
      have : b ≠ 0 := fun heq => h.2 t ht (heq ▸ hb)
      simpa using this
    rw [textRead, if_neg (by omega), take_of_length_le h.1, ht, map_some, hall]

theorem spelled_iff_encodes {id : Bytes} (hne : id ≠ []) (hwhole : KeptWhole id) (hloose : ¬ Loose id) :
    Spelled uid id ↔ EncodesUid uid id := by
  have hread := textRead_of_keptWhole hwhole
  constructor
  · rintro ⟨t, ht, hspell⟩
    have hlen := hexText_length (hread ▸ ht)
    have htne : t ≠ [] := by
      rintro rfl
      exact hne (eq_nil_of_length_eq_zero (by simpa using hlen))
    rcases hspell with ⟨rfl, -⟩ | ⟨n, rfl, hv⟩
    · exact absurd rfl htne
    · obtain ⟨b, hb⟩ : ∃ b, n.text.head? = some b := by
        cases hc : n.text with
        | nil => exact absurd hc htne
        | cons b t => exact ⟨b, rfl⟩
      have hplain : isSpace b = false ∧ b ≠ ch '+' ∧ b ≠ ch '-' := by
        refine ⟨?_, ?_, ?_⟩
        · by_contra hsp
          exact hloose ⟨_, b, ht, hb, .inl (by simpa using hsp)⟩
        · intro hp
          exact hloose ⟨_, b, ht, hb, .inr (.inl hp)⟩
        · intro hm
          exact hloose ⟨_, b, ht, hb, .inr (.inr hm)⟩
      obtain ⟨htext, hval⟩ := n.plain hb hplain.1 hplain.2.1 hplain.2.2
      refine ⟨n.digits, by rw [← hread, ht, htext], n.digits_ne, n.digits_digit, ?_⟩
      omega
  · rintro ⟨ds, hds, hdne, hdig, hval⟩
    refine ⟨ds, by rw [hread, hds], .inr ⟨Numeral.ofDigits ds hdne hdig, rfl, .inl ?_⟩⟩
    simp [hval]

theorem not_encodes_of_loose {id : Bytes} (hwhole : KeptWhole id) (hloose : Loose id) : ¬ EncodesUid uid id := by
  rintro ⟨ds, hds, -, hdig, -⟩
  obtain ⟨t, b, ht, hb, hkind⟩ := hloose
  rw [textRead_of_keptWhole hwhole, hds] at ht
  obtain rfl := some.inj ht
  have hb' : isDigit b = true := hdig b (mem_of_mem_head? hb)
  rcases hkind with hsp | rfl | rfl
  · rw [isSpace_eq_false_of_isDigit hb'] at hsp
    cases hsp
  · exact isDigit_ne_plus hb' rfl
  · exact isDigit_ne_minus hb' rfl

/-! ## The identity of a line -/

def lineRead (raw : Bytes) : Bytes :=
  (raw.take 511).takeWhile (· ≠ 0)

def skipBlanks (l : Bytes) : Bytes :=
  l.dropWhile (· = ch ' ')

inductive IdKind where
  | inline | data
  deriving DecidableEq

variable {kind : IdKind}

def IdKind.skip : IdKind → Nat
  | .inline => 13
  | .data => 4

/-- The identity in the bytes of a line, uncut.  `AUTH EXTERNAL` alone asks to be
asked and carries none; the word `DATA` ends where the C string may end. -/
def identityOf (raw : Bytes) : Option (IdKind × Bytes) :=
  if startsWith (cstr "AUTH EXTERNAL") raw then
    let id := skipBlanks (raw.drop 13)
    if id = [] then none else some (.inline, id)
  else if startsWith (cstr "DATA") raw ∧ (raw.drop 4).head?.getD 0 ∈ [0, ch ' '] then
    some (.data, skipBlanks (raw.drop 4))
  else none

def identityRead (kind : IdKind) (raw : Bytes) : Bytes :=
  skipBlanks ((lineRead raw).drop kind.skip)

theorem lineRead_append (r : Bytes) (hlen : a.length ≤ 511) (hnul : (0 : UInt8) ∉ a) :
    lineRead (a ++ r) = a ++ (r.take (511 - a.length)).takeWhile (· ≠ 0) := by
  have hall : ∀ b ∈ a, decide (b ≠ 0) = true := by
    intro b hb
    have : b ≠ 0 := fun heq => hnul (heq ▸ hb)
    simpa using this
  rw [lineRead, take_append, take_of_length_le hlen, takeWhile_append_of_pos hall]

theorem lineRead_isPrefixOf (raw : Bytes) : lineRead raw <+: raw :=
  (List.takeWhile_prefix _).trans (List.take_prefix _ _)

theorem startsWith_lineRead (raw : Bytes) (hlen : a.length ≤ 511) (hnul : (0 : UInt8) ∉ a) :
    startsWith a (lineRead raw) = startsWith a raw := by
  rw [Bool.eq_iff_iff, startsWith, startsWith, isPrefixOf_iff_prefix, isPrefixOf_iff_prefix]
  constructor
  · intro h
    exact h.trans (lineRead_isPrefixOf raw)
  · rintro ⟨r, rfl⟩
    rw [lineRead_append r hlen hnul]
    exact prefix_append _ _

def LineWhole (raw : Bytes) : Prop :=
  raw.length ≤ 511 ∧ (0 : UInt8) ∉ raw

theorem lineRead_of_whole (h : LineWhole raw) : lineRead raw = raw := by
  have := lineRead_append [] h.1 h.2
  simpa using this

theorem isData_lineRead (raw : Bytes) : (lineRead raw = cstr "DATA" ∨ startsWith (cstr "DATA ") (lineRead raw) = true) ↔
      startsWith (cstr "DATA") raw = true ∧ (raw.drop 4).head?.getD 0 ∈ [0, ch ' '] := by
  rw [← startsWith_lineRead raw (by decide) (by decide)]
  by_cases hpre : startsWith (cstr "DATA") raw = true
  · obtain ⟨r, rfl⟩ := isPrefixOf_iff_prefix.mp hpre
    rw [lineRead_append r (by decide) (by decide)]
    have hdrop : (cstr "DATA" ++ r).drop 4 = r := drop_left' rfl
    have hstart (l : Bytes) : startsWith (cstr "DATA") (cstr "DATA" ++ l) = true :=
      isPrefixOf_iff_prefix.mpr (prefix_append _ _)
    have hspace (l : Bytes) : startsWith (cstr "DATA ") (cstr "DATA" ++ l) = true ↔ l.head? = some (ch ' ') := by
      rw [startsWith, isPrefixOf_iff_prefix, show cstr "DATA " = cstr "DATA" ++ [ch ' '] from rfl,
        prefix_append_right_inj]
      cases l with
      | nil => simp
      | cons b l => simp [eq_comm]
    rw [hdrop, hstart, hspace]
    cases r with
    | nil => simp
    | cons b r =>
      by_cases hb : b = 0
      · simp [hb, show (511 - (cstr "DATA").length) = 506 + 1 from rfl]
      · simp [hb, show (511 - (cstr "DATA").length) = 506 + 1 from rfl]
  · have hread : startsWith (cstr "DATA") (lineRead raw) = false := by
      rw [startsWith_lineRead raw (by decide) (by decide)]
      simpa using hpre
    constructor
    · rintro (heq | hpre')
      · rw [heq] at hread
        exact absurd hread (by decide)
      · have : cstr "DATA" <+: lineRead raw :=
          (show cstr "DATA" <+: cstr "DATA " by decide).trans (List.isPrefixOf_iff_prefix.mp hpre')
        rw [← isPrefixOf_iff_prefix] at this
        exact absurd (this.symm.trans hread) (by decide)
    · rintro ⟨htrue, -⟩
      exact absurd (htrue.symm.trans hread) (by decide)

/-! ## The answer -/

def okReply (guid : Bytes) : Bytes := cstr "OK " ++ guid ++ cstr "\r\n"
def rejectedReply : Bytes := cstr "REJECTED EXTERNAL\r\n"
def dataReply : Bytes := cstr "DATA\r\n"

theorem okReply_ne_rejected : okReply guid ≠ rejectedReply := by
  intro h
  have hhead := congrArg List.head? h
  simp [okReply, rejectedReply, cstr] at hhead

theorem okReply_ne_data : okReply guid ≠ dataReply := by
  intro h
  have hhead := congrArg List.head? h
  simp [okReply, dataReply, cstr] at hhead

def identityReply (guid : Bytes) (uid : Nat) (kind : IdKind) (seen : Bytes) : Bytes :=
  if kind = .inline ∧ seen = [] then dataReply
  else if (hexUid seen).accepts uid then okReply guid
  else rejectedReply

theorem answerIdentity_out (c : Conn) (arg : Bytes) : (answerIdentity guid c arg).out =
      c.out ++ (if (hexUid arg).accepts c.creds.uid then okReply guid else rejectedReply) := by
  unfold answerIdentity
  split
  · rfl
  · rfl

theorem authLine_out_of_identity {id : Bytes} (c : Conn) (h : identityOf raw = some (kind, id)) :
    (authLine guid c (lineRead raw)).out = c.out ++ identityReply guid c.creds.uid kind (identityRead kind raw) := by
  have hauth := startsWith_lineRead raw (a := cstr "AUTH EXTERNAL") (by decide) (by decide)
  unfold identityOf at h
  unfold authLine
  by_cases hpre : startsWith (cstr "AUTH EXTERNAL") raw = true
  · rw [if_pos hpre] at h
    rw [hauth, if_pos hpre]
    obtain rfl : kind = .inline := by
      dsimp only at h
      split at h
      · cases h
      · exact (Prod.mk.inj (some.inj h)).1.symm
    change (if identityRead .inline raw = [] then c.outAppend dataReply
      else answerIdentity guid c (identityRead .inline raw)).out = _
    by_cases hseen : identityRead .inline raw = []
    · rw [if_pos hseen, identityReply, if_pos ⟨rfl, hseen⟩]
      rfl
    · rw [if_neg hseen, identityReply, if_neg (fun hc => hseen hc.2), answerIdentity_out]
  · rw [if_neg hpre] at h
    rw [hauth, if_neg hpre]
    split at h
    case isTrue hdata =>
      obtain ⟨rfl, rfl⟩ : kind = .data ∧ id = skipBlanks (raw.drop 4) := by simpa [eq_comm] using h
      rw [if_pos ((isData_lineRead raw).mpr hdata), identityReply, if_neg (by simp), answerIdentity_out]
      rfl
    · cases h

/-- The identity of the line is answered with OK or REJECTED, and with OK exactly
when it is one it should be: empty in a `DATA` line, or an encoding of `uid`. -/
def Answered (guid : Bytes) (uid : Nat) (raw reply : Bytes) : Prop :=
  ∀ kind id, identityOf raw = some (kind, id) →
    (reply = okReply guid ∨ reply = rejectedReply) ∧
      (reply = okReply guid ↔ kind = .data ∧ id = [] ∨ EncodesUid uid id)

def IdentityWhole (raw id : Bytes) : Prop :=
  LineWhole raw ∧ KeptWhole id

/-- What is left of an identity is accepted: nothing, in a `DATA` line, or a text
that spells `uid` (or -2) as `strtol` reads it. -/
def Taken (uid : Nat) (kind : IdKind) (seen : Bytes) : Prop :=
  seen = [] ∧ kind = .data ∨ seen ≠ [] ∧ Spelled uid seen

/-- An identity that is kept whole and begins with a blank or a sign does not spell
`uid` or -2.  Of one that is cut something is left, or the line is a `DATA` line,
and what is left is accepted just when the whole is an encoding of `uid`. -/
def ReadsRight (uid : Nat) (raw : Bytes) : Prop :=
  ∀ kind id, identityOf raw = some (kind, id) →
    (IdentityWhole raw id → Loose id → ¬ Spelled uid id) ∧
      (¬ IdentityWhole raw id → id ≠ [] →
        (identityRead kind raw = [] → kind = .data) ∧
          (Taken uid kind (identityRead kind raw) ↔ EncodesUid uid id))

theorem identityOf_eq_some {id : Bytes} (h : identityOf raw = some (kind, id)) :
    id = skipBlanks (raw.drop kind.skip) ∧ (kind = .inline → id ≠ []) := by
  unfold identityOf at h
  split at h
  · dsimp only at h
    split at h
    · cases h
    case isFalse hne =>
      obtain ⟨rfl, rfl⟩ : kind = .inline ∧ id = skipBlanks (raw.drop 13) := by simpa [eq_comm] using h
      exact ⟨rfl, fun _ => hne⟩
  · split at h
    · obtain ⟨rfl, rfl⟩ : kind = .data ∧ id = skipBlanks (raw.drop 4) := by simpa [eq_comm] using h
      exact ⟨rfl, by simp⟩
    · cases h

theorem identityRead_of_whole {id : Bytes} (h : identityOf raw = some (kind, id))
    (hwhole : IdentityWhole raw id) : identityRead kind raw = id := by
  rw [(identityOf_eq_some h).1, identityRead, lineRead_of_whole hwhole.1]

theorem identityRead_nil (h : identityOf raw = some (kind, [])) : identityRead kind raw = [] := by
  have hblank : ∀ b ∈ raw.drop kind.skip, b = ch ' ' := by
    have := (identityOf_eq_some h).1
    simpa [skipBlanks] using this.symm
  have hsub : (lineRead raw).drop kind.skip ⊆ raw.drop kind.skip := by
    obtain ⟨tail, htail⟩ := lineRead_isPrefixOf raw
    conv_rhs => rw [← htail, drop_append]
    exact subset_append_left _ _
  rw [identityRead, skipBlanks, dropWhile_eq_nil_iff]
  intro b hb
  simpa using hblank b (hsub hb)

theorem identityReply_eq_ok_iff (huid : uid < 2 ^ 32) :
    identityReply guid uid kind seen = okReply guid ↔ Taken uid kind seen := by
  have hrej := (okReply_ne_rejected guid).symm
  by_cases hnil : seen = []
  · subst hnil
    cases kind with
    | inline => simp [identityReply, Taken, (okReply_ne_data guid).symm]
    | data => simp [identityReply, Taken, hexUid, Claim.accepts]
  · rw [identityReply, if_neg (fun hc => hnil hc.2)]
    by_cases hacc : (hexUid seen).accepts uid = true
    · simp [hacc, Taken, hnil, (accepts_iff huid hnil).mp hacc]
    · have hspell : ¬ Spelled uid seen := fun hs => hacc ((accepts_iff huid hnil).mpr hs)
      simp [hacc, Taken, hnil, hspell, hrej]

theorem identityReply_kind (uid : Nat) :
    (identityReply guid uid kind seen = okReply guid ∨ identityReply guid uid kind seen = rejectedReply) ↔
      (seen = [] → kind = .data) := by
  by_cases hask : kind = .inline ∧ seen = []
  · rw [identityReply, if_pos hask]
    simp [hask.1, hask.2, (okReply_ne_data guid).symm, show dataReply ≠ rejectedReply by decide]
  · have hkind : seen = [] → kind = .data := by
      intro hnil
      cases kind with
      | data => rfl
      | inline => exact absurd ⟨rfl, hnil⟩ hask
    rw [identityReply, if_neg hask]
    refine iff_of_true ?_ hkind
    split
    · exact .inl rfl
    · exact .inr rfl

theorem answered_iff {guid id : Bytes} (huid : uid < 2 ^ 32) (hid : identityOf raw = some (kind, id)) :
    Answered guid uid raw (identityReply guid uid kind (identityRead kind raw)) ↔ ReadsRight uid raw := by
  have hlhs : Answered guid uid raw (identityReply guid uid kind (identityRead kind raw)) ↔
      (identityRead kind raw = [] → kind = .data) ∧
        (Taken uid kind (identityRead kind raw) ↔ kind = .data ∧ id = [] ∨ EncodesUid uid id) := by
    simp only [Answered, hid, some.injEq, Prod.mk.injEq]
    rw [← identityReply_eq_ok_iff guid huid, ← identityReply_kind guid uid]
    constructor
    · intro h
      exact h kind id ⟨rfl, rfl⟩
    · rintro h _ _ ⟨rfl, rfl⟩
      exact h
  have hrhs : ReadsRight uid raw ↔ (IdentityWhole raw id → Loose id → ¬ Spelled uid id) ∧
        (¬ IdentityWhole raw id → id ≠ [] → (identityRead kind raw = [] → kind = .data) ∧
          (Taken uid kind (identityRead kind raw) ↔ EncodesUid uid id)) := by
    simp only [ReadsRight, hid, some.injEq, Prod.mk.injEq]
    constructor
    · intro h
      exact h kind id ⟨rfl, rfl⟩
    · rintro h _ _ ⟨rfl, rfl⟩
      exact h
  rw [hlhs, hrhs]
  by_cases hnil : id = []
  · -- an empty identity stands in a `DATA` line, and nothing is read
    subst hnil
    obtain rfl : kind = .data := by
      cases kind with
      | data => rfl
      | inline => exact absurd rfl ((identityOf_eq_some hid).2 rfl)
    have hloose : ¬ Loose [] := by
      rintro ⟨t, b, ht, hb, -⟩
      obtain rfl : [] = t := by simpa [textRead, hexText] using ht
      cases hb
    simp [identityRead_nil hid, Taken, hloose]
  have hne : ¬ (kind = .data ∧ id = []) := fun h => hnil h.2
  simp only [hne, false_or]
  by_cases hwhole : IdentityWhole raw id
  · have hread := identityRead_of_whole hid hwhole
    simp only [hread, Taken, hnil, hwhole, false_and, false_or, ne_eq, not_false_eq_true, true_and, not_true_eq_false,
      false_imp_iff, true_imp_iff, and_true]
    by_cases hloose : Loose id
    · have henc : ¬ EncodesUid uid id := not_encodes_of_loose hwhole.2 hloose
      simp [hloose, henc]
    · simp [hloose, spelled_iff_encodes hnil hwhole.2 hloose]
  · simp [hwhole, hnil]

end SchemaInit.Dbus
