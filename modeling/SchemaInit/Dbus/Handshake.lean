/-
# `SchemaInit.Dbus.Handshake` — whole handshakes

A handshake is a sequence of reads, split in any way, fed to `sdbus_auth_feed`
until it answers something else than "mid-handshake".  It is kept with a log,
which is ghost data: `authLines_out` and `authLines_inBuf` say that its replies
are what was sent and its lines what was consumed.

Two results.  `identity_answered_iff`: in every handshake, each identity is
answered as it should be exactly when the source reads it right (see
`SchemaInit.Dbus.Identity` for what can go wrong).  `begun_only_authenticated`:
BEGIN is accepted only in the phase "waiting for BEGIN" of the protocol, in every
handshake in which an authenticated client starts no second attempt without
CANCEL and sends DATA only when asked.  The source keeps one flag, which a
rejection does not clear, so neither holds of every handshake.
-/
import SchemaInit.Dbus.Identity

namespace SchemaInit.Dbus

open Conn List

variable {guid raw : Bytes} {uid : Nat} {c : Conn}

/-! ## The lines of a handshake -/

structure AuthEvent where
  raw : Bytes
  reply : Bytes
  deriving DecidableEq

variable {P : AuthEvent → Prop}

def authEvents (guid : Bytes) : Nat → Conn → List AuthEvent
  | 0, _ => []
  | fuel + 1, c =>
    match findCrlf c.inBuf with
    | none => []
    | some nl =>
      let raw := c.inBuf.take nl
      let c := c.inConsume (nl + 2)
      if lineRead raw = cstr "BEGIN" then [{ raw := raw, reply := [] }]
      else
        let c' := authLine guid c (lineRead raw)
        { raw := raw, reply := c'.out.drop c.out.length } :: authEvents guid fuel c'

/-- The buffer in which a read looks for lines: the first byte of the stream is dropped. -/
def Conn.afterNul (c : Conn) : Conn :=
  if c.sawNul then c else { c.inConsume 1 with sawNul := true }

def feedEvents (guid : Bytes) (c : Conn) (data : Bytes) : List AuthEvent :=
  let c := c.inAppend data
  if c.inBuf.length > maxAuthBytes ∨ (c.sawNul = false ∧ c.inBuf.head? ≠ some 0) then []
  else authEvents guid c.afterNul.inBuf.length c.afterNul

/-- Keeps, for each complete line, its bytes and what was answered to it. -/
def handshake (guid : Bytes) : Conn → List Bytes → List AuthEvent × AuthResult
  | _, [] => ([], .going)
  | c, data :: reads =>
    let (c', result) := authFeed guid c data
    if result = .going then
      let (events, result) := handshake guid { c' with out := [] } reads
      (feedEvents guid c data ++ events, result)
    else (feedEvents guid c data, result)

theorem authFeed_eq (guid : Bytes) (c : Conn) (data : Bytes) : authFeed guid c data = let c := c.inAppend data
      if c.inBuf.length > maxAuthBytes then (c, .refused)
      else if c.sawNul = false ∧ c.inBuf = [] then (c, .going)
      else if c.sawNul = false ∧ c.inBuf.head? ≠ some 0 then (c, .refused)
      else authLines guid c.afterNul.inBuf.length c.afterNul := by
  unfold authFeed
  generalize c.inAppend data = c
  by_cases hlen : c.inBuf.length > maxAuthBytes
  · rw [if_pos hlen, if_pos hlen]
  rw [if_neg hlen, if_neg hlen]
  cases hnul : c.sawNul with
  | true => simp [afterNul, hnul]
  | false =>
    cases hbuf : c.inBuf with
    | nil => simp
    | cons b rest =>
      by_cases hb : b = 0
      · simp [hb, afterNul, hnul]
      · simp [hb]

/-! ## What one line does -/

def isAuth (line : Bytes) : Prop :=
  startsWith (cstr "AUTH EXTERNAL") line = true ∨ line = cstr "AUTH" ∨ startsWith (cstr "AUTH ") line = true

def isData (line : Bytes) : Prop :=
  line = cstr "DATA" ∨ startsWith (cstr "DATA ") line = true

instance (line : Bytes) : Decidable (isAuth line) := inferInstanceAs (Decidable (_ ∨ _ ∨ _))
instance (line : Bytes) : Decidable (isData line) := inferInstanceAs (Decidable (_ ∨ _))

def aside : List Bytes := [cstr "AGREE_UNIX_FD\r\n", cstr "ERROR\r\n"]

/-- The answer to a line other than BEGIN and what becomes of the flag `auth_ok`. -/
inductive LineEffect (guid line : Bytes) : (authOk authOk' : Bool) → (reply : Bytes) → Prop where
  /-- `AUTH EXTERNAL` without an identity: it is asked for -/
  | ask (h : startsWith (cstr "AUTH EXTERNAL") line = true) (k : Bool) : LineEffect guid line k k dataReply
  | inlineOk (h : startsWith (cstr "AUTH EXTERNAL") line = true) (k : Bool) :
      LineEffect guid line k true (okReply guid)
  | authBad (h : isAuth line) (k : Bool) : LineEffect guid line k k rejectedReply
  | dataOk (h : isData line) (k : Bool) : LineEffect guid line k true (okReply guid)
  | dataBad (h : isData line) (k : Bool) : LineEffect guid line k k rejectedReply
  | cancel (h : line = cstr "CANCEL") (k : Bool) : LineEffect guid line k false rejectedReply
  | aside (hauth : ¬ isAuth line) (hdata : ¬ isData line) (k : Bool) {reply : Bytes}
      (hreply : reply ∈ aside) : LineEffect guid line k k reply

theorem answerIdentity_effect (guid : Bytes) (c : Conn) (arg : Bytes) :
    (answerIdentity guid c arg).out = c.out ++ okReply guid ∧ (answerIdentity guid c arg).authOk = true ∨
      (answerIdentity guid c arg).out = c.out ++ rejectedReply ∧ (answerIdentity guid c arg).authOk = c.authOk := by
  unfold answerIdentity
  split
  · exact .inl ⟨rfl, rfl⟩
  · exact .inr ⟨rfl, rfl⟩

theorem authLine_effect (guid : Bytes) (c : Conn) (line : Bytes) :
    ∃ reply, (authLine guid c line).out = c.out ++ reply ∧
      LineEffect guid line c.authOk (authLine guid c line).authOk reply := by
  unfold authLine
  by_cases hext : startsWith (cstr "AUTH EXTERNAL") line = true
  · rw [if_pos hext]
    dsimp only
    split
    · exact ⟨dataReply, rfl, .ask hext _⟩
    · rcases answerIdentity_effect guid c ((line.drop 13).dropWhile (· = ch ' ')) with ⟨hout, hok⟩ | ⟨hout, hok⟩
      · exact ⟨_, hout, hok ▸ .inlineOk hext _⟩
      · exact ⟨_, hout, hok ▸ .authBad (.inl hext) _⟩
  rw [if_neg hext]
  by_cases hdata : line = cstr "DATA" ∨ startsWith (cstr "DATA ") line = true
  · rw [if_pos hdata]
    rcases answerIdentity_effect guid c ((line.drop 4).dropWhile (· = ch ' ')) with ⟨hout, hok⟩ | ⟨hout, hok⟩
    · exact ⟨_, hout, hok ▸ .dataOk hdata _⟩
    · exact ⟨_, hout, hok ▸ .dataBad hdata _⟩
  rw [if_neg hdata]
  by_cases hauth : line = cstr "AUTH" ∨ startsWith (cstr "AUTH ") line = true
  · rw [if_pos hauth]
    exact ⟨rejectedReply, rfl, .authBad (.inr hauth) _⟩
  rw [if_neg hauth]
  have hno : ¬ isAuth line := by
    rintro (h | h)
    · exact hext h
    · exact hauth h
  by_cases hneg : line = cstr "NEGOTIATE_UNIX_FD"
  · rw [if_pos hneg]
    exact ⟨cstr "AGREE_UNIX_FD\r\n", rfl, .aside hno hdata _ (by simp [aside])⟩
  rw [if_neg hneg]
  by_cases hcancel : line = cstr "CANCEL"
  · rw [if_pos hcancel]
    exact ⟨rejectedReply, rfl, .cancel hcancel _⟩
  · rw [if_neg hcancel]
    exact ⟨cstr "ERROR\r\n", rfl, .aside hno hdata _ (by simp [aside])⟩

theorem authLine_frame (guid : Bytes) (c : Conn) (line : Bytes) :
    (authLine guid c line).inBuf = c.inBuf ∧ (authLine guid c line).creds = c.creds ∧
      (authLine guid c line).sawNul = c.sawNul := by
  have hid (arg : Bytes) : (answerIdentity guid c arg).inBuf = c.inBuf ∧
      (answerIdentity guid c arg).creds = c.creds ∧ (answerIdentity guid c arg).sawNul = c.sawNul := by
    unfold answerIdentity
    split
    · exact ⟨rfl, rfl, rfl⟩
    · exact ⟨rfl, rfl, rfl⟩
  unfold authLine
  dsimp only
  split
  · split
    · exact ⟨rfl, rfl, rfl⟩
    · exact hid _
  · split
    · exact hid _
    · repeat (split; exact ⟨rfl, rfl, rfl⟩)
      exact ⟨rfl, rfl, rfl⟩

/-! ## The log is what happened -/

theorem authLines_succ (guid : Bytes) (fuel : Nat) (c : Conn) : authLines guid (fuel + 1) c =
      match findCrlf c.inBuf with
      | none => (c, .going)
      | some nl =>
        if lineRead (c.inBuf.take nl) = cstr "BEGIN" then
          if c.authOk then ({ c.inConsume (nl + 2) with authed := true }, .begun)
          else (c.inConsume (nl + 2), .refused)
        else authLines guid fuel (authLine guid (c.inConsume (nl + 2)) (lineRead (c.inBuf.take nl))) := by
  have hread (nl : Nat) : (c.inBuf.take (min nl 511)).takeWhile (· ≠ 0) = lineRead (c.inBuf.take nl) := by
    rw [lineRead, take_take, min_comm]
  simp only [authLines, hread]
  rfl

theorem authLines_out (guid : Bytes) (fuel : Nat) (c : Conn) :
    (authLines guid fuel c).1.out = c.out ++ (authEvents guid fuel c).flatMap AuthEvent.reply := by
  induction fuel generalizing c with
  | zero => simp [authLines, authEvents]
  | succ fuel ih =>
    rw [authLines_succ, authEvents]
    cases hnl : findCrlf c.inBuf with
    | none => simp
    | some nl =>
      dsimp only
      by_cases hbegin : lineRead (c.inBuf.take nl) = cstr "BEGIN"
      · rw [if_pos hbegin, if_pos hbegin]
        split
        · simp [inConsume]
        · simp [inConsume]
      · rw [if_neg hbegin, if_neg hbegin, ih]
        obtain ⟨reply, hout, -⟩ :=
          authLine_effect guid (c.inConsume (nl + 2)) (lineRead (c.inBuf.take nl))
        rw [hout, drop_left', flatMap_cons, ← append_assoc]
        · rfl
        · rfl

theorem findCrlf_spec {buf : Bytes} {nl : Nat} (h : findCrlf buf = some nl) :
    ∃ rest, buf = buf.take nl ++ (cstr "\r\n" ++ rest) := by
  fun_induction findCrlf buf generalizing nl with
  | case1 => cases h
  | case2 b rest hcr =>
    obtain rfl : 0 = nl := Option.some.inj h
    obtain ⟨rfl, hhead⟩ := hcr
    obtain ⟨tail, rfl⟩ : ∃ tail, rest = ch '\n' :: tail := by
      cases rest with
      | nil => cases hhead
      | cons x tail => exact ⟨tail, by simpa using hhead⟩
    exact ⟨tail, rfl⟩
  | case3 b rest _ ih =>
    obtain ⟨m, hm, rfl⟩ := Option.map_eq_some_iff.mp h
    obtain ⟨tail, htail⟩ := ih hm
    exact ⟨tail, by rw [take_succ_cons, cons_append, ← htail]⟩

theorem authLines_inBuf (guid : Bytes) (fuel : Nat) (c : Conn) :
    c.inBuf = (authEvents guid fuel c).flatMap (fun ev => ev.raw ++ cstr "\r\n") ++
      (authLines guid fuel c).1.inBuf := by
  induction fuel generalizing c with
  | zero => simp [authLines, authEvents]
  | succ fuel ih =>
    rw [authLines_succ, authEvents]
    cases hnl : findCrlf c.inBuf with
    | none => simp
    | some nl =>
      obtain ⟨rest, hrest⟩ := findCrlf_spec hnl
      have hdrop : c.inBuf.drop (nl + 2) = rest := by
        have hlen : nl ≤ c.inBuf.length := by
          by_contra hlt
          rw [take_of_length_le (by omega)] at hrest
          have := congrArg List.length hrest
          simp [cstr] at this
        conv_lhs => rw [hrest, ← append_assoc]
        exact drop_left' (by simp [cstr, hlen])
      dsimp only
      by_cases hbegin : lineRead (c.inBuf.take nl) = cstr "BEGIN"
      · rw [if_pos hbegin, if_pos hbegin]
        conv_lhs => rw [hrest]
        split
        · simp [inConsume, hdrop]
        · simp [inConsume, hdrop]
      · rw [if_neg hbegin, if_neg hbegin, flatMap_cons, append_assoc, ← ih, (authLine_frame ..).1]
        conv_lhs => rw [hrest]
        simp [inConsume, hdrop]

theorem authFeed_out (guid : Bytes) (c : Conn) (data : Bytes) :
    (authFeed guid c data).1.out = c.out ++ (feedEvents guid c data).flatMap AuthEvent.reply := by
  have hin : (c.inAppend data).out = c.out := by
    unfold inAppend
    split
    · rfl
    · rfl
  have hnul (c : Conn) : c.afterNul.out = c.out := by
    unfold afterNul
    split
    · rfl
    · rfl
  rw [authFeed_eq, feedEvents]
  by_cases hlen : (c.inAppend data).inBuf.length > maxAuthBytes
  · simp [hlen, hin]
  by_cases hempty : (c.inAppend data).sawNul = false ∧ (c.inAppend data).inBuf = []
  · simp [hempty, hin]
  by_cases hbad : (c.inAppend data).sawNul = false ∧ (c.inAppend data).inBuf.head? ≠ some 0
  · rw [if_neg hlen, if_neg hempty, if_pos hbad, if_pos (.inr hbad)]
    simp [hin]
  · rw [if_neg hlen, if_neg hempty, if_neg hbad, if_neg (by simp [hlen, hbad]),
      authLines_out, hnul, hin]

/-! ## The identities of a handshake -/

theorem authEvents_forall (hbegin : ∀ raw, lineRead raw = cstr "BEGIN" → P { raw := raw, reply := [] })
    (hline : ∀ (c : Conn) raw reply, c.creds.uid = uid →
      (authLine guid c (lineRead raw)).out = c.out ++ reply → P { raw := raw, reply := reply })
    (fuel : Nat) (hc : c.creds.uid = uid) : ∀ ev ∈ authEvents guid fuel c, P ev := by
  induction fuel generalizing c with
  | zero => simp [authEvents]
  | succ fuel ih =>
    rw [authEvents]
    cases findCrlf c.inBuf with
    | none => simp
    | some nl =>
      dsimp only
      by_cases hb : lineRead (c.inBuf.take nl) = cstr "BEGIN"
      · rw [if_pos hb]
        simpa using hbegin _ hb
      · rw [if_neg hb]
        obtain ⟨reply, hout, -⟩ :=
          authLine_effect guid (c.inConsume (nl + 2)) (lineRead (c.inBuf.take nl))
        rw [forall_mem_cons]
        constructor
        · rw [hout, drop_left' rfl]
          exact hline (c.inConsume (nl + 2)) _ _ hc hout
        · apply ih
          rw [(authLine_frame ..).2.1]
          exact hc

theorem authLines_frame (guid : Bytes) (fuel : Nat) (c : Conn) :
    (authLines guid fuel c).1.creds = c.creds ∧ (authLines guid fuel c).1.sawNul = c.sawNul := by
  induction fuel generalizing c with
  | zero => exact ⟨rfl, rfl⟩
  | succ fuel ih =>
    rw [authLines_succ]
    cases findCrlf c.inBuf with
    | none => exact ⟨rfl, rfl⟩
    | some nl =>
      dsimp only
      split
      · split
        · exact ⟨rfl, rfl⟩
        · exact ⟨rfl, rfl⟩
      · rw [(ih _).1, (ih _).2]
        exact (authLine_frame ..).2

theorem Conn.inAppend_creds (c : Conn) (data : Bytes) : (c.inAppend data).creds = c.creds := by
  unfold inAppend
  split
  · rfl
  · rfl

theorem Conn.afterNul_creds (c : Conn) : c.afterNul.creds = c.creds := by
  unfold afterNul
  split
  · rfl
  · rfl

theorem authFeed_creds (guid : Bytes) (c : Conn) (data : Bytes) : (authFeed guid c data).1.creds = c.creds := by
  rw [authFeed_eq]
  dsimp only
  split
  · exact c.inAppend_creds data
  split
  · exact c.inAppend_creds data
  split
  · exact c.inAppend_creds data
  · rw [(authLines_frame ..).1, afterNul_creds, inAppend_creds]

theorem handshake_forall (hbegin : ∀ raw, lineRead raw = cstr "BEGIN" → P { raw := raw, reply := [] })
    (hline : ∀ (c : Conn) raw reply, c.creds.uid = uid →
      (authLine guid c (lineRead raw)).out = c.out ++ reply → P { raw := raw, reply := reply })
    (reads : List Bytes) (hc : c.creds.uid = uid) : ∀ ev ∈ (handshake guid c reads).1, P ev := by
  have hfeed (c : Conn) (data : Bytes) (hc : c.creds.uid = uid) : ∀ ev ∈ feedEvents guid c data, P ev := by
    unfold feedEvents
    dsimp only
    split
    · simp
    · apply authEvents_forall hbegin hline
      rw [afterNul_creds, inAppend_creds, hc]
  induction reads generalizing c with
  | nil => simp [handshake]
  | cons data reads ih =>
    rw [handshake]
    dsimp only
    split
    · intro ev hev
      rcases mem_append.mp hev with hev | hev
      · exact hfeed c data hc ev hev
      · exact ih (by rw [authFeed_creds, hc]) ev hev
    · exact hfeed c data hc

theorem identityOf_of_begin (h : lineRead raw = cstr "BEGIN") : identityOf raw = none := by
  have hpre (a : Bytes) (hlen : a.length ≤ 511) (hnul : (0 : UInt8) ∉ a)
      (hno : startsWith a (cstr "BEGIN") = false) : startsWith a raw = false := by
    rw [← startsWith_lineRead raw hlen hnul, h, hno]
  rw [identityOf, hpre (cstr "AUTH EXTERNAL") (by decide) (by decide) (by decide),
    hpre (cstr "DATA") (by decide) (by decide) (by decide)]
  simp

/-- In every handshake of a peer, split into reads in any way: each identity is
answered as it should be exactly when it is read right. -/
theorem identity_answered_iff (guid : Bytes) (c : Conn) (reads : List Bytes) (huid : c.creds.uid < 2 ^ 32) :
    ∀ ev ∈ (handshake guid c reads).1, Answered guid c.creds.uid ev.raw ev.reply ↔ ReadsRight c.creds.uid ev.raw := by
  refine handshake_forall ?_ ?_ reads rfl
  · intro raw hbegin
    have hnone := identityOf_of_begin hbegin
    simp [Answered, ReadsRight, hnone]
  · intro c' raw reply hc' hout
    cases hid : identityOf raw with
    | none => simp [Answered, ReadsRight, hid]
    | some p =>
      obtain ⟨kind, id⟩ := p
      have hreply := authLine_out_of_identity guid c' hid
      rw [hout, append_cancel_left_eq, hc'] at hreply
      rw [hreply]
      exact answered_iff huid hid

def peer (uid : Nat) : Conn :=
  Conn.new 4 1 { uid := uid, gid := 0, pid := 7, gids := [0] }

/-- `AUTH EXTERNAL 31303030`, which is 1000, from the peer with uid 1000. -/
theorem identity_answered_thousand : ((handshake [] (peer 1000) [0 :: cstr "AUTH EXTERNAL 31303030\r\n"]).1 =
        [{ raw := cstr "AUTH EXTERNAL 31303030", reply := okReply [] }]) ∧
      (Answered [] 1000 (cstr "AUTH EXTERNAL 31303030") (okReply []) ↔
        ReadsRight 1000 (cstr "AUTH EXTERNAL 31303030")) := by
  have hrun : (handshake [] (peer 1000) [0 :: cstr "AUTH EXTERNAL 31303030\r\n"]).1 =
      [{ raw := cstr "AUTH EXTERNAL 31303030", reply := okReply [] }] := by decide +kernel
  refine ⟨hrun, ?_⟩
  exact identity_answered_iff [] (peer 1000) [0 :: cstr "AUTH EXTERNAL 31303030\r\n"] (by decide) _
    (by rw [hrun]; exact mem_singleton.mpr rfl)

/-- `2d32` is "-2", the value by which `sdbus__hex_uid` says "the peer's own uid". -/
theorem minus_two_answered_ok : ∃ ev ∈ (handshake [] (peer 1000) [0 :: cstr "AUTH EXTERNAL 2d32\r\n"]).1,
      ¬ Answered [] 1000 ev.raw ev.reply := by
  have hrun : (handshake [] (peer 1000) [0 :: cstr "AUTH EXTERNAL 2d32\r\n"]).1 =
      [{ raw := cstr "AUTH EXTERNAL 2d32", reply := okReply [] }] := by decide +kernel
  rw [hrun]
  refine ⟨_, mem_singleton.mpr rfl, ?_⟩
  intro hans
  obtain ⟨-, hok⟩ := hans .inline (cstr "2d32") (by decide)
  rcases hok.mp rfl with ⟨hkind, -⟩ | ⟨ds, hds, -, hdig, -⟩
  · cases hkind
  · obtain rfl : cstr "-2" = ds := Option.some.inj hds
    exact absurd (hdig (ch '-') (by decide)) (by decide)

/-! ## The phases of the protocol -/

inductive AuthPhase where
  | waitAuth | waitData | waitBegin
  deriving DecidableEq

variable {p : AuthPhase}

/-- A rejection takes the client back to the start, a request for the identity makes
it wait for that, and OK counts when it answers an identity given inline or asked for. -/
def AuthPhase.after (guid : Bytes) (p : AuthPhase) (ev : AuthEvent) : AuthPhase :=
  if ev.reply = rejectedReply then .waitAuth
  else if ev.reply = dataReply then .waitData
  else if ev.reply = okReply guid ∧ (startsWith (cstr "AUTH EXTERNAL") (lineRead ev.raw) = true ∨ p = .waitData)
    then .waitBegin
  else p

/-- A line in its place: once authenticated the client starts no other attempt, and
it sends DATA only when asked. -/
def InPlace (p : AuthPhase) (raw : Bytes) : Prop :=
  (p = .waitBegin → ¬ isAuth (lineRead raw)) ∧ (isData (lineRead raw) → p = .waitData)

instance (p : AuthPhase) (raw : Bytes) : Decidable (InPlace p raw) := inferInstanceAs (Decidable (_ ∧ _))

def Orderly (guid : Bytes) : AuthPhase → List AuthEvent → Prop
  | _, [] => True
  | p, ev :: evs => InPlace p ev.raw ∧ Orderly guid (p.after guid ev) evs

instance Orderly.dec (guid : Bytes) : (p : AuthPhase) → (evs : List AuthEvent) → Decidable (Orderly guid p evs)
  | _, [] => .isTrue trivial
  | p, ev :: evs =>
    have := Orderly.dec guid (p.after guid ev) evs
    inferInstanceAs (Decidable (_ ∧ _))

theorem Orderly.append {evs evs' : List AuthEvent} (h : Orderly guid p (evs ++ evs')) :
    Orderly guid p evs ∧ Orderly guid (evs.foldl (AuthPhase.after guid) p) evs' := by
  induction evs generalizing p with
  | nil => exact ⟨trivial, h⟩
  | cons ev evs ih =>
    obtain ⟨hhead, htail⟩ := h
    exact ⟨⟨hhead, (ih htail).1⟩, (ih htail).2⟩

def PhaseIs (authOk : Bool) (p : AuthPhase) : Prop :=
  authOk = true ↔ p = .waitBegin

theorem okReply_not_aside (guid : Bytes) : okReply guid ∉ aside := by
  intro h
  simp only [aside, mem_cons, not_mem_nil, or_false] at h
  rcases h with h | h <;>
  · have hhead := congrArg List.head? h
    simp [okReply, cstr] at hhead

theorem PhaseIs.line {reply : Bytes} {k k' : Bool} (h : PhaseIs k p)
    (heff : LineEffect guid (lineRead raw) k k' reply) (hplace : InPlace p raw) :
    PhaseIs k' (p.after guid { raw := raw, reply := reply }) := by
  have hok1 := okReply_ne_rejected guid
  have hok2 := okReply_ne_data guid
  have hdr : dataReply ≠ rejectedReply := by decide
  unfold PhaseIs at h ⊢
  cases heff with
  | ask hext =>
    have hp : p ≠ .waitBegin := fun hp => hplace.1 hp (.inl hext)
    simp [AuthPhase.after, hdr, h, hp]
  | inlineOk hext => simp [AuthPhase.after, hok1, hok2, hext]
  | authBad hauth =>
    have hp : p ≠ .waitBegin := fun hp => hplace.1 hp hauth
    simp [AuthPhase.after, h, hp]
  | dataOk hdata => simp [AuthPhase.after, hok1, hok2, hplace.2 hdata]
  | dataBad hdata => simp [AuthPhase.after, h, hplace.2 hdata]
  | cancel => simp [AuthPhase.after]
  | aside _ _ _ hreply =>
    have h1 : reply ≠ rejectedReply := fun heq => absurd (heq ▸ hreply) (by decide)
    have h2 : reply ≠ dataReply := fun heq => absurd (heq ▸ hreply) (by decide)
    have h3 : reply ≠ okReply guid := fun heq => okReply_not_aside guid (heq ▸ hreply)
    simp [AuthPhase.after, h1, h2, h3, h]

/-- What a run of lines leaves: the flag agrees with the phase, and BEGIN was
accepted in the phase that waits for it. -/
theorem PhaseIs.lines (fuel : Nat) (h : PhaseIs c.authOk p) (hord : Orderly guid p (authEvents guid fuel c)) :
    PhaseIs (authLines guid fuel c).1.authOk ((authEvents guid fuel c).foldl (AuthPhase.after guid) p) ∧
      ((authLines guid fuel c).2 = .begun → (authLines guid fuel c).1.authOk = true) := by
  induction fuel generalizing c p with
  | zero => exact ⟨by simpa [authLines, authEvents] using h, by simp [authLines]⟩
  | succ fuel ih =>
    rw [authLines_succ]
    rw [authEvents] at hord ⊢
    cases hnl : findCrlf c.inBuf with
    | none => exact ⟨by simpa using h, by simp⟩
    | some nl =>
      rw [hnl] at hord
      dsimp only at hord ⊢
      by_cases hb : lineRead (c.inBuf.take nl) = cstr "BEGIN"
      · have hphase : p.after guid { raw := c.inBuf.take nl, reply := [] } = p := by
          simp [AuthPhase.after, okReply, rejectedReply, dataReply, cstr]
        simp only [if_pos hb, foldl_cons, foldl_nil, hphase]
        cases hok : c.authOk with
        | true => exact ⟨h, fun _ => hok⟩
        | false => exact ⟨h, by simp⟩
      · rw [if_neg hb] at hord
        simp only [if_neg hb, foldl_cons]
        obtain ⟨reply, hout, heff⟩ :=
          authLine_effect guid (c.inConsume (nl + 2)) (lineRead (c.inBuf.take nl))
        rw [hout, drop_left' rfl] at hord ⊢
        exact ih (h.line heff hord.1) hord.2

theorem Conn.inAppend_authOk (c : Conn) (data : Bytes) : (c.inAppend data).authOk = c.authOk := by
  unfold inAppend
  split
  · rfl
  · rfl

theorem Conn.afterNul_authOk (c : Conn) : c.afterNul.authOk = c.authOk := by
  unfold afterNul
  split
  · rfl
  · rfl

theorem PhaseIs.feed {data : Bytes} (h : PhaseIs c.authOk p) (hord : Orderly guid p (feedEvents guid c data)) :
    PhaseIs (authFeed guid c data).1.authOk ((feedEvents guid c data).foldl (AuthPhase.after guid) p) ∧
      ((authFeed guid c data).2 = .begun → (authFeed guid c data).1.authOk = true) := by
  rw [← c.inAppend_authOk data] at h
  rw [authFeed_eq]
  rw [feedEvents] at hord ⊢
  by_cases hlen : (c.inAppend data).inBuf.length > maxAuthBytes
  · simpa [hlen] using h
  by_cases hempty : (c.inAppend data).sawNul = false ∧ (c.inAppend data).inBuf = []
  · simpa [hempty] using h
  by_cases hbad : (c.inAppend data).sawNul = false ∧ (c.inAppend data).inBuf.head? ≠ some 0
  · rw [if_neg hlen, if_neg hempty, if_pos hbad, if_pos (.inr hbad)]
    exact ⟨h, by simp⟩
  · simp only [hlen, hbad, or_self, if_false] at hord ⊢
    rw [if_neg hempty]
    rw [← afterNul_authOk] at h
    exact h.lines _ hord

/-- In every handshake whose lines stand in their place, split into reads in any way:
BEGIN is accepted only when the last attempt was answered OK. -/
theorem begun_only_authenticated (guid : Bytes) (c : Conn) (reads : List Bytes) (hnew : c.authOk = false)
    (hord : Orderly guid .waitAuth (handshake guid c reads).1)
    (hbegun : (handshake guid c reads).2 = .begun) :
    (handshake guid c reads).1.foldl (AuthPhase.after guid) .waitAuth = .waitBegin := by
  have hstart : PhaseIs c.authOk .waitAuth := by simp [PhaseIs, hnew]
  clear hnew
  generalize AuthPhase.waitAuth = p at hord hstart ⊢
  induction reads generalizing c p with
  | nil => cases hbegun
  | cons data reads ih =>
    rw [handshake] at hord hbegun ⊢
    by_cases hgoing : (authFeed guid c data).2 = .going
    · simp only [if_pos hgoing] at hord hbegun ⊢
      obtain ⟨hfirst, hrest⟩ := hord.append
      rw [foldl_append]
      exact ih _ hbegun _ hrest (hstart.feed hfirst).1
    · simp only [if_neg hgoing] at hord hbegun ⊢
      obtain ⟨hphase, hok⟩ := hstart.feed hord
      exact hphase.mp (hok hbegun)

/-- One accepted attempt and BEGIN. -/
theorem begun_only_authenticated_once : (handshake [] (peer 0) [0 :: cstr "AUTH EXTERNAL 30\r\nBEGIN\r\n"]).2 = .begun ∧
      (handshake [] (peer 0) [0 :: cstr "AUTH EXTERNAL 30\r\nBEGIN\r\n"]).1.foldl (AuthPhase.after []) .waitAuth =
        .waitBegin := by
  have hrun : handshake [] (peer 0) [0 :: cstr "AUTH EXTERNAL 30\r\nBEGIN\r\n"] =
      ([{ raw := cstr "AUTH EXTERNAL 30", reply := okReply [] }, { raw := cstr "BEGIN", reply := [] }], .begun) := by
    decide +kernel
  have hbegun : (handshake [] (peer 0) [0 :: cstr "AUTH EXTERNAL 30\r\nBEGIN\r\n"]).2 = .begun := by rw [hrun]
  exact ⟨hbegun, begun_only_authenticated [] (peer 0) _ rfl (by rw [hrun]; decide +kernel) hbegun⟩

/-- An accepted attempt, a rejected one, and BEGIN is still accepted. -/
theorem begun_after_rejected :
    (handshake [] (peer 0) [0 :: cstr "AUTH EXTERNAL 30\r\nAUTH EXTERNAL 31\r\nBEGIN\r\n"]).2 = .begun ∧
      (handshake [] (peer 0) [0 :: cstr "AUTH EXTERNAL 30\r\nAUTH EXTERNAL 31\r\nBEGIN\r\n"]).1.foldl
        (AuthPhase.after []) .waitAuth = .waitAuth := by
  decide +kernel

end SchemaInit.Dbus
