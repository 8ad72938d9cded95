/-
# `SchemaInit.Dbus.Grouping` — a handshake cut into reads in two ways

The kernel decides how a client's bytes are grouped into the reads of `greet`.

`Conn.feed` is the same without the size limit.  It does not see the grouping
(`feed_append`), so as long as a stream fits in the limit no grouping matters.
Beyond it the limit counts whatever came in one read, complete lines and the
messages behind BEGIN included: `grouping_irrelevant_iff`.
-/
import SchemaInit.Dbus.Handshake

namespace SchemaInit.Dbus

open Conn List

variable {guid data more bs : Bytes} {c : Conn} {ds : List Bytes}

/-- What a client gets out of its reads: the replies, the verdict, and once it is
authenticated the bytes that are its first messages. -/
structure Outcome where
  replies : Bytes
  verdict : AuthResult
  messages : Bytes

def outcome (r : Conn × AuthResult) (later : Bytes) : Outcome where
  replies := r.1.out
  verdict := r.2
  messages := if r.2 = .begun then r.1.inBuf ++ later else []

/-- Feeds a list of reads to `sdbus_auth_feed` until there is a verdict; nothing reads `out`
meanwhile, so it is kept as the record of all replies. -/
def greet (guid : Bytes) : Conn → List Bytes → Outcome
  | c, [] => outcome (c, .going) []
  | c, data :: ds =>
    if (authFeed guid c data).2 = .going then greet guid (authFeed guid c data).1 ds
    else outcome (authFeed guid c data) ds.flatten

/-- A way of cutting `bs` into reads: none is empty, none longer than the buffer of
`on_readable`. -/
def Cut (bs : Bytes) (ds : List Bytes) : Prop :=
  ds.flatten = bs ∧ ∀ data ∈ ds, data ≠ [] ∧ data.length ≤ 65536

/-- What follows the NUL is refused on its first line: it is BEGIN, or over the limit. -/
def BadStart (t : Bytes) : Prop :=
  match findCrlf (t.take maxAuthBytes) with
  | some nl => lineRead (t.take nl) = cstr "BEGIN"
  | none => maxAuthBytes < t.length

/-- The stream fits in the limit, or every grouping of it is refused without an
answer. -/
def Groupless (bs : Bytes) : Prop :=
  bs.length ≤ maxAuthBytes ∨ bs.head? ≠ some 0 ∨ BadStart bs.tail

/-! ## Lines and what follows them -/

theorem findCrlf_append (more : Bytes) {nl : Nat} (h : findCrlf data = some nl) :
    findCrlf (data ++ more) = some nl ∧ nl + 2 ≤ data.length := by
  fun_induction findCrlf data generalizing nl with
  | case1 => cases h
  | case2 b rest' hcr =>
    obtain rfl : 0 = nl := Option.some.inj h
    obtain ⟨hb, hhead⟩ := hcr
    cases rest' with
    | nil => cases hhead
    | cons x tail => exact ⟨by simpa [findCrlf, hb] using hhead, by simp⟩
  | case3 b rest' hno ih =>
    obtain ⟨m, hm, rfl⟩ := Option.map_eq_some_iff.mp h
    obtain ⟨happ, hlen⟩ := ih hm
    cases rest' with
    | nil => cases hm
    | cons x tail =>
      refine ⟨?_, by simpa using hlen⟩
      rw [cons_append, findCrlf, happ, if_neg (by simpa using hno)]
      rfl

def Conn.lines (guid : Bytes) (c : Conn) : Conn × AuthResult :=
  authLines guid c.inBuf.length c

theorem authLines_fuel {fuel : Nat} (h : c.inBuf.length ≤ fuel) : authLines guid fuel c = c.lines guid := by
  unfold lines
  generalize hn : c.inBuf.length = n at h
  induction n using Nat.strongRecOn generalizing c fuel with
  | _ n ih =>
    subst hn
    cases hnl : findCrlf c.inBuf with
    | none => cases fuel <;> cases c.inBuf.length <;> simp [authLines, hnl]
    | some nl =>
      have hlen := (findCrlf_append [] hnl).2
      obtain ⟨k, hk⟩ : ∃ k, c.inBuf.length = k + 1 := ⟨c.inBuf.length - 1, by omega⟩
      obtain ⟨f, rfl⟩ : ∃ f, fuel = f + 1 := ⟨fuel - 1, by omega⟩
      rw [hk, authLines_succ, authLines_succ, hnl]
      dsimp only
      have hbuf : (authLine guid (c.inConsume (nl + 2)) (lineRead (c.inBuf.take nl))).inBuf.length =
          c.inBuf.length - (nl + 2) := by
        rw [(authLine_frame ..).1, inConsume, length_drop]
      rw [ih _ (by omega) rfl (by omega : _ ≤ f), ih _ (by omega) rfl (by omega : _ ≤ k)]

theorem lines_eq (guid : Bytes) (c : Conn) : c.lines guid = match findCrlf c.inBuf with
      | none => (c, .going)
      | some nl =>
        if lineRead (c.inBuf.take nl) = cstr "BEGIN" then
          if c.authOk then ({ c.inConsume (nl + 2) with authed := true }, .begun)
          else (c.inConsume (nl + 2), .refused)
        else (authLine guid (c.inConsume (nl + 2)) (lineRead (c.inBuf.take nl))).lines guid := by
  rw [← authLines_fuel (Nat.le_succ _), authLines_succ]
  cases hnl : findCrlf c.inBuf with
  | none => rfl
  | some nl =>
    dsimp only
    rw [authLines_fuel]
    rw [(authLine_frame ..).1, inConsume, length_drop]
    omega

theorem lines_length (guid : Bytes) (c : Conn) : (c.lines guid).1.inBuf.length ≤ c.inBuf.length := by
  have hbuf := congrArg List.length (authLines_inBuf guid c.inBuf.length c)
  rw [length_append] at hbuf
  exact hbuf ▸ Nat.le_add_left _ _

theorem findCrlf_of_lines (h : c.lines guid = (c, .going)) : findCrlf c.inBuf = none := by
  cases hnl : findCrlf c.inBuf with
  | none => rfl
  | some nl =>
    have hlen := (findCrlf_append [] hnl).2
    rw [lines_eq, hnl] at h
    dsimp only at h
    split_ifs at h
    · cases congrArg Prod.snd h
    · cases congrArg Prod.snd h
    · have hless := lines_length guid (authLine guid (c.inConsume (nl + 2)) (lineRead (c.inBuf.take nl)))
      rw [h, (authLine_frame ..).1, inConsume, length_drop] at hless
      dsimp only at hless
      omega

def Conn.behind (c : Conn) (more : Bytes) : Conn :=
  { c with inBuf := c.inBuf ++ more }

theorem authLine_behind (guid : Bytes) (c : Conn) (more line : Bytes) :
    authLine guid (c.behind more) line = (authLine guid c line).behind more := by
  have hid (arg : Bytes) : answerIdentity guid (c.behind more) arg = (answerIdentity guid c arg).behind more := by
    rw [answerIdentity, answerIdentity, show (c.behind more).creds = c.creds from rfl]
    cases (hexUid arg).accepts c.creds.uid <;> rfl
  simp only [authLine, hid]
  split_ifs <;> rfl

/-- What more bytes do to a result: the handshake goes on unless there is a verdict. -/
def resume (guid : Bytes) (more : Bytes) : Conn × AuthResult → Conn × AuthResult
  | (c, .going) => (c.behind more).lines guid
  | (c, verdict) => (c.behind more, verdict)

theorem lines_behind (guid : Bytes) (c : Conn) (more : Bytes) :
    (c.behind more).lines guid = resume guid more (c.lines guid) := by
  generalize hn : c.inBuf.length = n
  induction n using Nat.strongRecOn generalizing c with
  | _ n ih =>
    subst hn
    rw [lines_eq guid c]
    cases hnl : findCrlf c.inBuf with
    | none => rfl
    | some nl =>
      obtain ⟨happ, hlen⟩ := findCrlf_append more hnl
      have htake : (c.behind more).inBuf.take nl = c.inBuf.take nl :=
        take_append_of_le_length (by omega)
      have hconsume : (c.behind more).inConsume (nl + 2) = (c.inConsume (nl + 2)).behind more := by
        simp [inConsume, behind, drop_append_of_le_length hlen]
      rw [lines_eq, show findCrlf (c.behind more).inBuf = some nl from happ]
      dsimp only
      rw [htake, hconsume]
      by_cases hbegin : lineRead (c.inBuf.take nl) = cstr "BEGIN"
      · rw [if_pos hbegin, if_pos hbegin, show (c.behind more).authOk = c.authOk from rfl]
        cases c.authOk <;> rfl
      · rw [if_neg hbegin, if_neg hbegin, authLine_behind]
        refine ih _ ?_ _ rfl
        rw [(authLine_frame ..).1, inConsume, length_drop]
        omega

/-! ## Reads without the limit -/

def Conn.feed (guid : Bytes) (c : Conn) (data : Bytes) : Conn × AuthResult :=
  if c.sawNul = false ∧ c.inBuf ++ data = [] then (c.behind data, .going)
  else if c.sawNul = false ∧ (c.inBuf ++ data).head? ≠ some 0 then (c.behind data, .refused)
  else (c.behind data).afterNul.lines guid

/-- Between two reads: no line is left that could be handled, and the buffer is
within the limit. -/
structure AtRest (guid : Bytes) (c : Conn) : Prop where
  lines : c.sawNul = true → c.lines guid = (c, .going)
  start : c.sawNul = false → c.inBuf = []
  fits : c.inBuf.length ≤ maxAuthBytes

theorem AtRest.authFeed (hc : AtRest guid c) (hdata : data.length ≤ 65536) : authFeed guid c data =
      if c.inBuf.length + data.length > maxAuthBytes then (c.behind data, .refused) else c.feed guid data := by
  have hroom : c.inBuf.length + data.length ≤ maxConnPending := by
    have := hc.fits
    have : maxAuthBytes + 65536 ≤ maxConnPending := by decide
    omega
  rw [authFeed_eq, inAppend_of_le hroom]
  simp only [length_append]
  rfl

theorem feed_eq (hdata : data ≠ []) : c.feed guid data =
      if c.sawNul = false ∧ (c.inBuf ++ data).head? ≠ some 0 then (c.behind data, .refused)
      else (c.behind data).afterNul.lines guid :=
  if_neg (by simp [hdata])

theorem afterNul_behind (hdata : data ≠ []) (more : Bytes) :
    (c.behind (data ++ more)).afterNul = (c.behind data).afterNul.behind more := by
  have hne : c.inBuf ++ data ≠ [] := by simp [hdata]
  unfold afterNul
  cases hnul : c.sawNul with
  | true => simp [behind, hnul]
  | false =>
    simp only [behind, hnul, inConsume]
    rw [← append_assoc, drop_append_of_le_length (length_pos_iff.mpr hne)]
    rfl

theorem afterNul_frame (c : Conn) :
    c.afterNul.sawNul = true ∧ c.afterNul.out = c.out ∧ c.afterNul.inBuf.length ≤ c.inBuf.length := by
  unfold afterNul
  split
  · exact ⟨‹_›, rfl, le_rfl⟩
  · exact ⟨rfl, rfl, by simp [inConsume]⟩

theorem feed_append (hdata : data ≠ []) (more : Bytes) :
    c.feed guid (data ++ more) = resume guid more (c.feed guid data) := by
  have hne : c.inBuf ++ data ≠ [] := by simp [hdata]
  have hhead : (c.inBuf ++ (data ++ more)).head? = (c.inBuf ++ data).head? := by
    rw [← append_assoc, head?_append_of_ne_nil _ hne]
  rw [feed_eq hdata, feed_eq (by simp [hdata]), hhead]
  by_cases hbad : c.sawNul = false ∧ (c.inBuf ++ data).head? ≠ some 0
  · rw [if_pos hbad, if_pos hbad]
    simp [resume, behind]
  rw [if_neg hbad, if_neg hbad, ← lines_behind, afterNul_behind hdata]

theorem AtRest.feed_nil (hc : AtRest guid c) : c.feed guid [] = (c, .going) := by
  have hself : c.behind [] = c := by simp [behind]
  unfold feed
  cases hnul : c.sawNul with
  | true => simpa [hself, afterNul, hnul] using hc.lines hnul
  | false => simp [hc.start hnul, hself]

theorem feed_going (hdata : data ≠ [])
    (hfits : c.inBuf.length + data.length ≤ maxAuthBytes) (hgoing : (c.feed guid data).2 = .going) :
    AtRest guid (c.feed guid data).1 ∧ (c.feed guid data).1.inBuf.length ≤ c.inBuf.length + data.length ∧
      ∀ more, (c.feed guid data).1.feed guid more = c.feed guid (data ++ more) := by
  have hfeed : c.feed guid data = (c.behind data).afterNul.lines guid := by
    rw [feed_eq hdata] at hgoing ⊢
    by_cases hbad : c.sawNul = false ∧ (c.inBuf ++ data).head? ≠ some 0
    · rw [if_pos hbad] at hgoing
      cases hgoing
    · rw [if_neg hbad]
  have hnul : (c.feed guid data).1.sawNul = true := by
    rw [hfeed, lines, (authLines_frame ..).2]
    exact (afterNul_frame _).1
  have hlen : (c.feed guid data).1.inBuf.length ≤ c.inBuf.length + data.length := by
    rw [hfeed, ← length_append]
    exact (lines_length _ _).trans (afterNul_frame _).2.2
  have hmore (more : Bytes) : ((c.feed guid data).1.behind more).lines guid = c.feed guid (data ++ more) := by
    have hpair : c.feed guid data = ((c.feed guid data).1, .going) := Prod.ext rfl hgoing
    rw [feed_append hdata, hpair]
    rfl
  refine ⟨⟨fun _ => ?_, fun h => absurd hnul (by simp [h]), hlen.trans hfits⟩, hlen, fun more => ?_⟩
  · have hself : (c.feed guid data).1.behind [] = (c.feed guid data).1 := by simp [behind]
    rw [← hself, hmore, append_nil, hself, ← hgoing]
  · rw [← hmore, feed]
    simp [hnul, afterNul, behind]

theorem greet_of_fits (hc : AtRest guid c) (hds : ∀ data ∈ ds, data ≠ [] ∧ data.length ≤ 65536)
    (hfits : c.inBuf.length + ds.flatten.length ≤ maxAuthBytes) :
    greet guid c ds = outcome (c.feed guid ds.flatten) [] := by
  induction ds generalizing c with
  | nil => rw [flatten_nil, hc.feed_nil, greet]
  | cons data ds ih =>
    obtain ⟨⟨hdata, hlen⟩, hds⟩ := forall_mem_cons.mp hds
    rw [flatten_cons, length_append] at hfits
    have hstep : authFeed guid c data = c.feed guid data := by
      rw [hc.authFeed hlen, if_neg (by omega)]
    rw [greet, hstep, flatten_cons]
    by_cases hgoing : (c.feed guid data).2 = .going
    · obtain ⟨hrest, hbuf, hmore⟩ := feed_going hdata (by omega) hgoing
      rw [if_pos hgoing, ih hrest hds (by omega), hmore]
    · rw [if_neg hgoing, feed_append hdata]
      generalize c.feed guid data = r at hgoing ⊢
      obtain ⟨c', verdict⟩ := r
      cases verdict with
      | going => exact (hgoing rfl).elim
      | begun => simp [outcome, resume, behind]
      | refused => simp [outcome, resume, behind]

/-! ## Streams over the limit -/

theorem BadStart.begin {nl : Nat} (h : BadStart (data ++ more)) (hfits : data.length ≤ maxAuthBytes)
    (hnl : findCrlf data = some nl) : lineRead (data.take nl) = cstr "BEGIN" := by
  obtain ⟨happ, hlen⟩ := findCrlf_append (more.take (maxAuthBytes - data.length)) hnl
  rw [BadStart, take_append, take_of_length_le hfits, happ] at h
  dsimp only at h
  rwa [take_append_of_le_length (by omega)] at h

theorem greet_of_badStart (hc : AtRest guid c) (hok : c.authOk = false)
    (hds : ∀ data ∈ ds, data ≠ [] ∧ data.length ≤ 65536)
    (hhead : c.sawNul = true ∨ ds.flatten.head? = some 0)
    (hbad : BadStart (c.behind ds.flatten).afterNul.inBuf) :
    greet guid c ds = { replies := c.out, verdict := .refused, messages := [] } := by
  induction ds generalizing c with
  | nil =>
    -- the whole stream is in the buffer, which has no line and fits
    have hnul : c.sawNul = true := hhead.resolve_right (by simp)
    have hnone : findCrlf c.inBuf = none := findCrlf_of_lines (hc.lines hnul)
    simp [behind, afterNul, hnul, BadStart, take_of_length_le hc.fits, hnone] at hbad
    exact absurd hc.fits (by omega)
  | cons data ds ih =>
    obtain ⟨⟨hdata, hlen⟩, hds⟩ := forall_mem_cons.mp hds
    by_cases hover : c.inBuf.length + data.length > maxAuthBytes
    · have hstep : authFeed guid c data = (c.behind data, .refused) := by
        rw [hc.authFeed hlen, if_pos hover]
      rw [greet, hstep]
      rfl
    have hstep : authFeed guid c data = (c.behind data).afterNul.lines guid := by
      rw [hc.authFeed hlen, if_neg hover, feed_eq hdata, if_neg]
      rintro ⟨hnul, hne⟩
      rw [flatten_cons, head?_append_of_ne_nil _ hdata] at hhead
      rw [hc.start hnul] at hne
      exact hne (hhead.resolve_left (by simp [hnul]))
    obtain ⟨hnul, hout, hbuf⟩ := afterNul_frame (c.behind data)
    rw [flatten_cons, afterNul_behind hdata] at hbad
    have hok' := (c.behind data).afterNul_authOk.trans hok
    have hfits : (c.behind data).afterNul.inBuf.length ≤ maxAuthBytes := by
      refine hbuf.trans ?_
      rw [behind, length_append]
      omega
    rw [greet, hstep, ← show (c.behind data).afterNul.out = c.out from hout]
    generalize (c.behind data).afterNul = q at *
    have hlines := lines_eq guid q
    cases hnl : findCrlf q.inBuf with
    | none =>
      replace hlines : q.lines guid = (q, .going) := by rw [hlines, hnl]
      rw [hlines, if_pos rfl]
      refine ih ⟨fun _ => hlines, fun h => (by cases hnul.symm.trans h), hfits⟩ hok' hds (.inl hnul) ?_
      rwa [afterNul, if_pos (show (q.behind ds.flatten).sawNul = true from hnul)]
    | some nl =>
      have hbegin := hbad.begin hfits hnl
      rw [hnl] at hlines
      dsimp only at hlines
      rw [if_pos hbegin, hok'] at hlines
      rw [hlines]
      rfl

theorem greet_of_noNul (hc : AtRest guid c) (hnul : c.sawNul = false) (hne : ds ≠ [])
    (hds : ∀ data ∈ ds, data ≠ [] ∧ data.length ≤ 65536) (hhead : ds.flatten.head? ≠ some 0) :
    greet guid c ds = { replies := c.out, verdict := .refused, messages := [] } := by
  obtain ⟨data, ds, rfl⟩ := exists_cons_of_ne_nil hne
  obtain ⟨⟨hdata, hlen⟩, -⟩ := forall_mem_cons.mp hds
  rw [flatten_cons, head?_append_of_ne_nil _ hdata] at hhead
  have hstep : authFeed guid c data = (c.behind data, .refused) := by
    have hbad : c.sawNul = false ∧ (c.inBuf ++ data).head? ≠ some 0 := ⟨hnul, by rwa [hc.start hnul]⟩
    rw [hc.authFeed hlen, feed_eq hdata, if_pos hbad, ite_self]
  rw [greet, hstep]
  rfl

/-! ## Two groupings that differ -/

theorem greet_over (data : Bytes) (ds : List Bytes) (hc : AtRest guid c) (hdata : data.length ≤ 65536)
    (hover : data.length > maxAuthBytes) :
    greet guid c (data :: ds) = { replies := c.out, verdict := .refused, messages := [] } := by
  have hstep : authFeed guid c data = (c.behind data, .refused) := by
    rw [hc.authFeed hdata, if_pos (by omega)]
  rw [greet, hstep]
  rfl

theorem greet_replies (guid : Bytes) (c : Conn) (data : Bytes) (ds : List Bytes) :
    (authFeed guid c data).1.out <+: (greet guid c (data :: ds)).replies := by
  rw [greet]
  split
  · induction ds generalizing c data with
    | nil => exact prefix_rfl
    | cons data' ds ih =>
      have hout : (authFeed guid c data).1.out <+: (authFeed guid (authFeed guid c data).1 data').1.out :=
        ⟨_, (authFeed_out ..).symm⟩
      rw [greet]
      split
      · exact hout.trans (ih _ _ ‹_›)
      · exact hout
  · exact prefix_rfl

theorem LineEffect.reply_ne {line reply : Bytes} {k k' : Bool} (h : LineEffect guid line k k' reply) : reply ≠ [] := by
  cases h with
  | inlineOk | dataOk => simp [okReply, cstr]
  | ask | authBad | dataBad | cancel => decide
  | aside _ _ _ hreply =>
    rintro rfl
    exact absurd hreply (by decide)

theorem feed_answers {nl : Nat} (hnul : c.sawNul = true) (hbuf : c.inBuf = []) (hnl : findCrlf data = some nl)
    (hline : lineRead (data.take nl) ≠ cstr "BEGIN") : c.out.length < (c.feed guid data).1.out.length := by
  have hdata : data ≠ [] := by
    rintro rfl
    cases hnl
  have hbehind : (c.behind data).inBuf = data := by simp [behind, hbuf]
  rw [feed_eq hdata, if_neg (by simp [hnul]), afterNul, if_pos (show (c.behind data).sawNul = true from hnul),
    lines_eq, hbehind, hnl]
  dsimp only
  rw [if_neg hline, lines, authLines_out]
  obtain ⟨reply, hout, heff⟩ := authLine_effect guid ((c.behind data).inConsume (nl + 2)) (lineRead (data.take nl))
  have hreply := length_pos_iff.mpr heff.reply_ne
  rw [hout, length_append, length_append]
  simp only [behind, inConsume]
  omega

theorem cut_cons (data : Bytes) (hdata : data ≠ []) (hlen : data.length ≤ 65536) (hcut : Cut bs ds) :
    Cut (data ++ bs) (data :: ds) :=
  ⟨by rw [flatten_cons, hcut.1], forall_mem_cons.mpr ⟨⟨hdata, hlen⟩, hcut.2⟩⟩

theorem cut_bytes (bs : Bytes) : Cut bs (bs.map (fun b => [b])) := by
  refine ⟨by induction bs <;> simp_all, fun data hdata => ?_⟩
  obtain ⟨b, -, rfl⟩ := mem_map.mp hdata
  simp

theorem cut_take (bs : Bytes) (n : Nat) (hne : bs.take n ≠ []) (hlen : (bs.take n).length ≤ 65536) :
    Cut bs (bs.take n :: (bs.drop n).map (fun b => [b])) := by
  have hcut := cut_cons _ hne hlen (cut_bytes (bs.drop n))
  rwa [take_append_drop] at hcut

/-- A stream over the limit with a usable first line: its first bytes in one read are
refused, and the NUL in a read of its own is not. -/
theorem grouping_matters {t : Bytes} (hc : AtRest guid c) (hnul : c.sawNul = false)
    (hover : maxAuthBytes < t.length + 1) (hstart : ¬ BadStart t) :
    ∃ ds ds', Cut (0 :: t) ds ∧ Cut (0 :: t) ds' ∧ greet guid c ds ≠ greet guid c ds' := by
  have hmax : maxAuthBytes + 1 ≤ 65536 := by decide
  have hone := cut_take (0 :: t) (maxAuthBytes + 1) (by simp) (by simp; omega)
  have hrefused := greet_over ((0 :: t).take (maxAuthBytes + 1))
    (((0 :: t).drop (maxAuthBytes + 1)).map (fun b => [b])) hc
    (by simp; omega) (by simp; omega)
  -- the read of the NUL
  have hnul1 : authFeed guid c [0] = ({ c with sawNul := true }, .going) := by
    rw [hc.authFeed (by decide), hc.start hnul, if_neg (by decide), feed_eq (by decide), hc.start hnul,
      if_neg (by simp), lines_eq]
    simp [behind, afterNul, hnul, hc.start hnul, inConsume, findCrlf]
  have hrest : AtRest guid { c with sawNul := true } := by
    refine ⟨fun _ => ?_, by simp, hc.fits⟩
    simp [lines_eq, hc.start hnul, findCrlf]
  have hfirst (ds : List Bytes) : greet guid c ([0] :: ds) = greet guid { c with sawNul := true } ds := by
    rw [greet, hnul1, if_pos rfl]
  unfold BadStart at hstart
  cases hnl : findCrlf (t.take maxAuthBytes) with
  | none =>
    -- one byte over the limit: without the NUL the rest fits and the handshake goes on
    rw [hnl] at hstart
    have hfits : t.length ≤ maxAuthBytes := not_lt.mp hstart
    rw [take_of_length_le hfits] at hnl
    have hne : t ≠ [] := by
      rintro rfl
      exact absurd hover (by decide)
    have hgoing : authFeed guid { c with sawNul := true } t = ({ c with sawNul := true }.behind t, .going) := by
      rw [hrest.authFeed (by omega), if_neg (by simp [hc.start hnul, hfits]), feed_eq hne, if_neg (by simp),
        afterNul, if_pos (by rfl), lines_eq]
      simp [behind, hc.start hnul, hnl]
    refine ⟨_, [[0], t], hone, cut_cons [0] (by decide) (by decide)
      ⟨by simp, by simpa using ⟨hne, by omega⟩⟩, fun heq => ?_⟩
    rw [hrefused, hfirst, greet, hgoing] at heq
    cases congrArg Outcome.verdict heq
  | some nl =>
    -- the first line in a read of its own is answered
    rw [hnl] at hstart
    have hlen := (findCrlf_append [] hnl).2
    have hmin : (t.take maxAuthBytes).length ≤ maxAuthBytes := length_take_le _ _
    have hline : lineRead ((t.take maxAuthBytes).take nl) ≠ cstr "BEGIN" := by
      rwa [take_take, min_eq_left (by omega)]
    refine ⟨_, _, hone, cut_cons [0] (by decide) (by decide)
      (cut_take _ maxAuthBytes (ne_nil_of_length_pos (by omega)) (by omega)), fun heq => ?_⟩
    have hpre := greet_replies guid { c with sawNul := true } (t.take maxAuthBytes)
      ((t.drop maxAuthBytes).map (fun b => [b]))
    rw [← hfirst, ← heq, hrefused, hrest.authFeed (by omega), if_neg (by simp [hc.start hnul])] at hpre
    have hanswer := @feed_answers guid _ { c with sawNul := true } _ rfl (hc.start hnul) hnl hline
    exact absurd hpre.length_le (not_le.mpr hanswer)

/-- For every new connection and every stream: all groupings into reads give the same
outcome exactly when the limit cannot tell them apart. -/
theorem grouping_irrelevant_iff (guid : Bytes) (fd : Int) (id : ConnId) (creds : Creds) (bs : Bytes) :
    (∀ ds ds', Cut bs ds → Cut bs ds' → greet guid (new fd id creds) ds = greet guid (new fd id creds) ds') ↔
      Groupless bs := by
  have hnew : AtRest guid (new fd id creds) := ⟨nofun, fun _ => rfl, Nat.zero_le _⟩
  constructor
  · intro hsame
    by_contra hbad
    simp only [Groupless, not_or, not_le, not_not] at hbad
    obtain ⟨hover, hhead, hstart⟩ := hbad
    obtain ⟨t, rfl⟩ : ∃ t, bs = 0 :: t := ⟨_, (cons_head?_tail hhead).symm⟩
    obtain ⟨ds, ds', hds, hds', hne⟩ := grouping_matters hnew rfl hover hstart
    exact hne (hsame ds ds' hds hds')
  · suffices h : Groupless bs → ∃ o, ∀ ds, Cut bs ds → greet guid (new fd id creds) ds = o by
      intro hbs ds ds' hds hds'
      obtain ⟨o, ho⟩ := h hbs
      rw [ho ds hds, ho ds' hds']
    intro hbs
    by_cases hfits : bs.length ≤ maxAuthBytes
    · refine ⟨outcome ((new fd id creds).feed guid bs) [], fun ds hds => ?_⟩
      rw [greet_of_fits hnew hds.2 (by simpa [new, hds.1] using hfits), hds.1]
    · refine ⟨{ replies := [], verdict := .refused, messages := [] }, fun ds hds => ?_⟩
      by_cases hhead : bs.head? = some 0
      · have hstart : BadStart bs.tail := (hbs.resolve_left hfits).resolve_left (not_not_intro hhead)
        refine greet_of_badStart hnew rfl hds.2 (.inr (by rw [hds.1, hhead])) ?_
        rw [hds.1]
        simpa [behind, afterNul, new, inConsume] using hstart
      · exact greet_of_noNul hnew rfl (by rintro rfl; exact hfits (hds.1 ▸ Nat.zero_le _)) hds.2 (by rwa [hds.1])

def pipelined : Bytes × Bytes :=
  (0 :: cstr "AUTH EXTERNAL 30\r\nBEGIN\r\n", List.replicate 16384 (ch 'l'))

/-- Together they are refused; with the messages in a read of their own the client is in. -/
theorem pipelined_refused : Cut (pipelined.1 ++ pipelined.2) [pipelined.1 ++ pipelined.2] ∧
      Cut (pipelined.1 ++ pipelined.2) [pipelined.1, pipelined.2] ∧
      (greet [] (peer 0) [pipelined.1 ++ pipelined.2]).verdict = .refused ∧
      (greet [] (peer 0) [pipelined.1, pipelined.2]).verdict = .begun := by
  have hhello : pipelined.1.length = 26 := by decide
  have hmessages : pipelined.2.length = 16384 := length_replicate
  have hlen : (pipelined.1 ++ pipelined.2).length = 16410 := by
    rw [length_append, hhello, hmessages]
  have hne (l : Bytes) (n : Nat) (h : l.length = n + 1) : l ≠ [] := ne_nil_of_length_eq_add_one h
  refine ⟨⟨by simp, ?_⟩, ⟨by simp, ?_⟩, ?_, ?_⟩
  · simpa [hhello, hmessages] using hne _ _ hlen
  · simpa [hhello, hmessages] using ⟨hne _ _ hhello, hne _ _ hmessages⟩
  · rw [greet_over _ _ ⟨fun h => absurd h (by decide), fun _ => rfl, Nat.zero_le _⟩ (by omega) (by rw [hlen]; decide)]
  · have hbegun : (authFeed [] (peer 0) pipelined.1).2 = .begun := by decide +kernel
    rw [greet, if_neg (by rw [hbegun]; decide)]
    exact hbegun

end SchemaInit.Dbus
