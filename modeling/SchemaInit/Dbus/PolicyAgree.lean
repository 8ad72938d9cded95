/-
# `SchemaInit.Dbus.PolicyAgree` — the C engine and its Python reference agree

    policyEval (policyParse db text) req = true
      ↔ Felt.evaluate db (Felt.parsePolicy text) request = "allow"

for every text of printable ASCII, tabs and newlines that both accept, in which no
rule repeats an attribute and every user or group selector is a plain number below
2^31 or an account name, and for every request with ids below 2^31 whose
destination and sender name are absent or non-empty.

The two parsers go through the text in step: what the C parser has of the
contexts after each line corresponds (`Corr`) to what the Python parser has.  The
lines are the same but for an empty one at the end, and on such texts the two
notions of a blank agree.  A rule's predicates are a list in C and a dict in
Python; without a repeated attribute they are the same list.  Evaluation then
visits corresponding rules in the same order.
-/
import SchemaInit.Dbus.FeltPolicy

namespace SchemaInit.Dbus

open List Felt

variable {b : UInt8} {s : Bytes} {k : CtxKind} {cs : List RawCtx} {ps : List Felt.Context} {req : PolicyReq}

/-! ## Texts on which the two languages agree -/

def Printable (text : Bytes) : Prop :=
  ∀ b ∈ text, b = 9 ∨ b = 10 ∨ (32 ≤ b ∧ b ≤ 126)

theorem Printable.mono {l l' : Bytes} (h : Printable l) (hsub : l' ⊆ l) : Printable l' :=
  fun b hb => h b (hsub hb)

theorem Printable.isSpace_eq {text : Bytes} (h : Printable text) (hb : b ∈ text) : Felt.isSpace b = isSpace b := by
  have hno : (28 ≤ b && b ≤ 31) = false := by
    have hcases := h b hb
    simp only [UInt8.le_iff_toNat_le, ← UInt8.toNat_inj, Bool.and_eq_false_iff, decide_eq_false_iff_not] at hcases ⊢
    simp only [UInt8.toNat_ofNat] at hcases ⊢
    omega
  simp [Felt.isSpace, isSpace, hno]

theorem Printable.isBreak_iff {text : Bytes} (h : Printable text) (hb : b ∈ text) : isBreak b = true ↔ b = ch '\n' := by
  have hcases := h b hb
  simp only [isBreak, UInt8.le_iff_toNat_le, ← UInt8.toNat_inj, Bool.and_eq_true, Bool.or_eq_true,
    decide_eq_true_eq, show ch '\n' = 10 from rfl] at hcases ⊢
  simp only [UInt8.toNat_ofNat] at hcases ⊢
  omega

theorem Printable.ne_cr {text : Bytes} (h : Printable text) (hb : b ∈ text) : b ≠ ch '\r' := by
  rintro rfl
  exact absurd (h _ hb) (by decide)

theorem Printable.strip_eq {text : Bytes} (h : Printable text) : Felt.strip text = ctrim text :=
  Text.trim_congr fun _ hb => h.isSpace_eq hb

theorem Printable.takeWhile_eq {text : Bytes} (h : Printable text) : text.takeWhile (· ≠ 0) = text := by
  rw [takeWhile_eq_self_iff]
  intro b hb
  have : b ≠ 0 := by
    rintro rfl
    exact absurd (h _ hb) (by decide)
  simpa using this

theorem splitlinesFrom_eq {text : Bytes} (h : Printable text) (cur : Bytes) : ∃ e, (e = [] ∨ e = [[]]) ∧
      splitlinesFrom cur text ++ e = (text.splitOn (ch '\n')).modifyHead (cur ++ ·) := by
  induction text generalizing cur with
  | nil =>
    by_cases hcur : cur = []
    · exact ⟨[[]], .inr rfl, by simp [splitlinesFrom, hcur, List.splitOn]⟩
    · exact ⟨[], .inl rfl, by simp [splitlinesFrom, hcur, List.splitOn]⟩
  | cons b rest ih =>
    have hrest : Printable rest := h.mono (subset_cons_self _ _)
    have hcr : b ≠ ch '\r' := h.ne_cr mem_cons_self
    have hbreak := h.isBreak_iff mem_cons_self
    -- one step of either reader
    have hstep : splitlinesFrom cur (b :: rest) =
        if b = ch '\n' then cur :: splitlinesFrom [] rest else splitlinesFrom (cur ++ [b]) rest := by
      cases rest with
      | nil =>
        by_cases hb : b = ch '\n'
        · simp [splitlinesFrom, if_pos (hbreak.mpr hb), if_pos hb]
        · simp [splitlinesFrom, if_neg (fun hc => hb (hbreak.mp hc)), if_neg hb]
      | cons b' rest =>
        rw [splitlinesFrom, if_neg (fun hc => hcr hc.1)]
        by_cases hb : b = ch '\n'
        · rw [if_pos (hbreak.mpr hb), if_pos hb]
        · rw [if_neg (fun hc => hb (hbreak.mp hc)), if_neg hb]
    rw [hstep, List.splitOn, splitOnP_cons_eq_if_modifyHead]
    by_cases hb : b = ch '\n'
    · obtain ⟨e, he, heq⟩ := ih hrest []
      refine ⟨e, he, ?_⟩
      rw [if_pos hb, if_pos (by simpa using hb), modifyHead_cons, cons_append, heq, append_nil]
      cases hs : List.splitOn (ch '\n') rest with
      | nil => rw [List.splitOn] at hs; simp [hs]
      | cons first others => rw [List.splitOn] at hs; simp [hs]
    · obtain ⟨e, he, heq⟩ := ih hrest (cur ++ [b])
      refine ⟨e, he, ?_⟩
      rw [if_neg hb, if_neg (by simpa using hb), heq]
      cases hs : List.splitOn (ch '\n') rest with
      | nil => rw [List.splitOn] at hs; simp [hs]
      | cons first others => rw [List.splitOn] at hs; simp [hs]

/-! ## The parsers in step -/

def CtxKind.text : CtxKind → Bytes
  | .default => cstr "default"
  | .mandatory => cstr "mandatory"
  | .user => cstr "user"
  | .group => cstr "group"

theorem ctxKind_eq_some (h : ctxKind s = some k) : s = k.text := by
  unfold ctxKind at h
  split_ifs at h with h1 h2 h3 h4 <;> cases h
  · exact h1
  · exact h2
  · exact h3
  · exact h4

theorem CtxKind.text_inj {k' : CtxKind} : k.text = k'.text ↔ k = k' := by
  cases k <;> cases k' <;> decide

def decision (allow : Bool) : Bytes :=
  if allow then cstr "allow" else cstr "deny"

theorem decision_eq_allow (allow : Bool) : decision allow = cstr "allow" ↔ allow = true := by
  cases allow <;> decide

/-- The predicates of a rule as the dict they are put into, one after the other. -/
def dictOf (preds : List Pred) : List (Bytes × Bytes) :=
  preds.foldl (fun d p => dictSet d p.attr p.value) []

def SameRule (r : Rule) (q : Felt.Rule) : Prop :=
  q.decision = decision r.allow ∧ q.predicates = dictOf r.preds

structure Corr (c : RawCtx) (p : Felt.Context) : Prop where
  kind : p.kind = c.kind.text
  selector : p.selector = if c.sel = [] then none else some c.sel
  rules : List.Forall₂ SameRule c.rules p.rules

theorem parsePredicates_eq {value : Bytes} (h : Printable value) :
    parsePredicates value = dictOf (parsePreds value) := by
  have hparts : ∀ part ∈ value.splitOn (ch ','), Printable part := fun part hpart =>
    h.mono (Text.mem_of_mem_splitOn hpart)
  unfold parsePredicates parsePreds dictOf
  -- the dict built so far is the same after each part
  generalize value.splitOn (ch ',') = parts at hparts
  generalize ([] : List (Bytes × Bytes)) = d
  induction parts generalizing d with
  | nil => rfl
  | cons part parts ih =>
    have hpart : Printable part := hparts part mem_cons_self
    have htrim : Printable (ctrim part) := hpart.mono (Text.trim_subset _ _)
    have hrest := ih (fun q hq => hparts q (mem_cons_of_mem _ hq))
    rw [foldl_cons, filterMap_cons, hpart.strip_eq]
    by_cases hempty : ctrim part = []
    · simp only [hempty, if_true]
      exact hrest d
    · simp only [hempty, if_false, (htrim.mono (Text.partition_fst_subset _ _)).strip_eq,
        (htrim.mono (Text.partition_snd_subset _ _)).strip_eq, foldl_cons]
      exact hrest _

theorem forall₂_concat_left {α β : Type*} {R : α → β → Prop} {l : List α} {a : α} {l' : List β}
    (h : List.Forall₂ R (l ++ [a]) l') : ∃ m b, l' = m ++ [b] ∧ List.Forall₂ R l m ∧ R a b := by
  have hrev : List.Forall₂ R (a :: l.reverse) l'.reverse := by
    simpa using forall₂_reverse_iff.mpr h
  obtain ⟨b, m, hab, hlm, hm⟩ := forall₂_cons_left_iff.mp hrev
  refine ⟨m.reverse, b, ?_, ?_, hab⟩
  · simpa using congrArg List.reverse hm
  · simpa using forall₂_reverse_iff.mpr hlm

theorem parseLine_corr {line : Bytes} (h : Printable line) {cs' : List RawCtx}
    (hcs : List.Forall₂ Corr cs ps) (hline : policyLine cs line = some cs') :
    ∃ ps', parseLine ps line = some ps' ∧ List.Forall₂ Corr cs' ps' := by
  have hcut : Printable (line.takeWhile (· ≠ ch '#')) := h.mono (Text.partition_fst_subset _ _)
  have hl : Printable (ctrim (line.takeWhile (· ≠ ch '#'))) := hcut.mono (Text.trim_subset _ _)
  have hstrip : strip (Text.partition (ch '#') line).1 = ctrim (line.takeWhile (· ≠ ch '#')) := hcut.strip_eq
  unfold policyLine at hline
  unfold parseLine
  rw [hstrip]
  generalize ctrim (line.takeWhile (· ≠ ch '#')) = l at hl hline
  have hkey := hl.mono (Text.partition_fst_subset (ch '=') l)
  have hval := hl.mono (Text.partition_snd_subset (ch '=') l)
  dsimp only at hline ⊢
  rw [hkey.strip_eq, hval.strip_eq]
  have hvalue := hval.mono (Text.trim_subset isSpace _)
  generalize ctrim (Text.partition (ch '=') l).1 = key at hline
  change Printable (ctrim (Text.partition (ch '=') l).2) at hvalue
  generalize ctrim (Text.partition (ch '=') l).2 = value at hline hvalue
  split at hline
  · -- a blank line, or a comment
    rename_i hnil
    obtain rfl := Option.some.inj hline
    exact ⟨ps, by rw [if_pos hnil], hcs⟩
  · rename_i hnil
    rw [if_neg hnil]
    split at hline
    · -- a context is opened
      rename_i hcontext
      have hkd := hvalue.mono (Text.partition_fst_subset (ch ':') value)
      have hsel := hvalue.mono (Text.partition_snd_subset (ch ':') value)
      rw [if_pos hcontext, hkd.strip_eq, hsel.strip_eq]
      obtain ⟨kind, hkind, rfl⟩ := Option.map_eq_some_iff.mp hline
      refine ⟨_, rfl, rel_append hcs (.cons ⟨ctxKind_eq_some hkind, rfl, .nil⟩ .nil)⟩
    · rename_i hcontext
      rw [if_neg hcontext]
      split at hline
      · -- a rule goes to the context opened last
        rename_i hrule
        rw [if_pos (by simpa using hrule)]
        rcases eq_nil_or_concat' cs with rfl | ⟨init, c, rfl⟩
        · cases hline
        · obtain ⟨pinit, p, rfl, hinit, hp⟩ := forall₂_concat_left hcs
          obtain rfl : _ = cs' := Option.some.inj (by simpa [addRule] using hline)
          have hdecision : key = decision (decide (key = cstr "allow")) := by
            rcases hrule with rfl | rfl <;> decide
          simp only [getLast?_append, getLast?_singleton, Option.some_or, dropLast_concat]
          refine ⟨_, rfl, rel_append hinit (.cons ?_ .nil)⟩
          exact
            { kind := hp.kind
              selector := hp.selector
              rules := rel_append hp.rules (.cons ⟨hdecision, parsePredicates_eq hvalue⟩ .nil) }
      · cases hline

theorem parsePolicy_corr {text : Bytes} (h : Printable text) (hcs : policyContexts text = some cs) :
    ∃ ps, parsePolicy text = some ps ∧ List.Forall₂ Corr cs ps := by
  have hrun : ∀ (lines : List Bytes), (∀ line ∈ lines, Printable line) →
    ∀ (cs cs' : List RawCtx) (ps : List Felt.Context),
      List.Forall₂ Corr cs ps → lines.foldlM policyLine cs = some cs' →
        ∃ ps', lines.foldlM parseLine ps = some ps' ∧ List.Forall₂ Corr cs' ps' := by
    intro lines
    induction lines with
    | nil =>
      intro _ cs cs' ps hc hfold
      obtain rfl : cs = cs' := by simpa using hfold
      exact ⟨ps, rfl, hc⟩
    | cons line lines ih =>
      intro hl cs cs' ps hc hfold
      rw [foldlM_cons] at hfold ⊢
      obtain ⟨mid, hmid, hrest⟩ := Option.bind_eq_some_iff.mp hfold
      obtain ⟨pmid, hpmid, hcm⟩ := parseLine_corr (hl line mem_cons_self) hc hmid
      rw [hpmid]
      exact ih (fun x hx => hl x (mem_cons_of_mem _ hx)) mid cs' pmid hcm hrest
  rw [policyContexts, h.takeWhile_eq] at hcs
  obtain ⟨ps, hps, hcorr⟩ := hrun _ (fun line hline => h.mono (Text.mem_of_mem_splitOn hline)) [] cs [] .nil hcs
  refine ⟨ps, ?_, hcorr⟩
  -- the empty line that only `splitOn` sees changes nothing
  obtain ⟨e, he, hsplit⟩ := splitlinesFrom_eq h []
  have hlines : text.splitOn (ch '\n') = splitlines text ++ e := by
    rw [splitlines, hsplit]
    cases text.splitOn (ch '\n') <;> rfl
  rw [hlines, foldlM_append] at hps
  obtain ⟨mid, hmid, hrest⟩ := Option.bind_eq_some_iff.mp hps
  have hsame : mid = ps := by
    rcases he with rfl | rfl
    · simpa using hrest
    · simpa [parseLine, strip, Text.trim, Text.partition] using hrest
  rw [parsePolicy, hmid, hsame]

/-! ## Requests and predicates -/

def ReqOp.text : ReqOp → Bytes
  | .send => cstr "send"
  | .own => cstr "own"
  | .receive => cstr "receive"

theorem ReqOp.text_inj (op op' : ReqOp) : op.text = op'.text ↔ op = op' := by
  cases op <;> cases op' <;> decide

def feltRequest (req : PolicyReq) (serial : Option Nat) : Felt.Request where
  op := req.op.text
  uid := some req.uid
  gids := req.gids
  interface := req.interface
  member := req.member
  msgtype := req.msgtype
  path := req.path
  destination := req.destination
  destinationNames := req.destNames
  name := req.name
  replySerial := serial
  senderName := req.senderName
  senderNames := req.senderNames

structure InDomain (req : PolicyReq) : Prop where
  uid : 0 ≤ req.uid ∧ req.uid < 2 ^ 31
  gids : ∀ g ∈ req.gids, 0 ≤ g ∧ g < 2 ^ 31
  destination : req.destination ≠ some []
  senderName : req.senderName ≠ some []

theorem identityMatches_eq (names : List Bytes) {fallback : Option Bytes} (h : fallback ≠ some []) (value : Bytes) :
    identityMatches names fallback value = namesMatch names fallback value := by
  rcases names with _ | ⟨n, names⟩
  · rcases fallback with _ | ⟨_ | ⟨b, l⟩⟩
    · simp [identityMatches, namesMatch, orEmpty, star]
    · exact absurd rfl h
    · simp [identityMatches, namesMatch, orEmpty, star, eq_comm]
  · simp [identityMatches, namesMatch, star]

theorem predicateMatches_eq (hreq : InDomain req) (serial : Option Nat) (p : Pred) :
    predicateMatches (feltRequest req serial) p.attr p.value = predMatches p req := by
  have hsend : (feltRequest req serial).op = cstr "send" ↔ req.op = .send := ReqOp.text_inj req.op .send
  have hown : (feltRequest req serial).op = cstr "own" ↔ req.op = .own := ReqOp.text_inj req.op .own
  have hreceive : (feltRequest req serial).op = cstr "receive" ↔ req.op = .receive := ReqOp.text_inj req.op .receive
  have hdest := identityMatches_eq req.destNames hreq.destination p.value
  have hsender := identityMatches_eq req.senderNames hreq.senderName p.value
  have hsends : scalarField (feltRequest req serial) (cstr "send_") p.attr =
      if p.attr = cstr "send_interface" then some req.interface
      else if p.attr = cstr "send_member" then some req.member
      else if p.attr = cstr "send_type" then some req.msgtype
      else if p.attr = cstr "send_path" then some req.path
      else none := rfl
  have hreceives : scalarField (feltRequest req serial) (cstr "receive_") p.attr =
      if p.attr = cstr "receive_interface" then some req.interface
      else if p.attr = cstr "receive_member" then some req.member
      else if p.attr = cstr "receive_type" then some req.msgtype
      else if p.attr = cstr "receive_path" then some req.path
      else none := rfl
  unfold predicateMatches predMatches
  rw [hsends, hreceives]
  simp only [hsend, hown, hreceive]
  -- the two chains of comparisons have the same tests in another order
  by_cases huser : p.attr = cstr "user"
  · rw [if_pos huser, if_pos (.inl huser)]
    rfl
  by_cases hgroup : p.attr = cstr "group"
  · rw [if_neg huser, if_pos hgroup, if_pos (.inr hgroup)]
    rfl
  by_cases h1 : p.attr = cstr "own"
  · simp +decide only [h1, feltRequest, if_true, if_false]
    rfl
  by_cases h2 : p.attr = cstr "own_prefix"
  · simp +decide [h2, feltRequest]
  by_cases h3 : p.attr = cstr "send_destination"
  · simp +decide [h3, feltRequest, hdest]
  simp only [huser, hgroup, h1, h2, h3, if_false, or_self]
  by_cases h4 : p.attr = cstr "receive_sender"
  · simp +decide [h4, feltRequest, hsender]
  simp only [h4, if_false]
  split_ifs <;> rfl

theorem dictOf_eq {preds : List Pred} (h : (preds.map Pred.attr).Nodup) :
    dictOf preds = preds.map (fun p => (p.attr, p.value)) := by
  have hacc (d : List (Bytes × Bytes)) : (d.map Prod.fst ++ preds.map Pred.attr).Nodup →
      preds.foldl (fun d p => dictSet d p.attr p.value) d = d ++ preds.map (fun p => (p.attr, p.value)) := by
    clear h
    induction preds generalizing d with
    | nil => simp
    | cons p preds ih =>
      intro hnd
      have hnew : p.attr ∉ d.map Prod.fst := by
        intro hin
        have := (nodup_append.mp hnd).2.2 _ hin p.attr (by simp)
        exact this rfl
      rw [foldl_cons, dictSet, if_neg hnew, ih _ (by simpa using hnd)]
      simp
  simpa [dictOf] using hacc [] (by simpa using h)

theorem ruleMatches_eq (hreq : InDomain req) (serial : Option Nat) {r : Rule} {q : Felt.Rule}
    (hsame : SameRule r q) (hnd : (r.preds.map Pred.attr).Nodup) :
    Felt.ruleMatches q (feltRequest req serial) = ruleMatches r req := by
  rw [Felt.ruleMatches, hsame.2, dictOf_eq hnd, all_map, ruleMatches]
  refine congrArg r.preds.all (funext fun p => ?_)
  exact predicateMatches_eq hreq serial p

/-! ## Selectors -/

/-- A plain decimal number below 2^31.  (More than 4300 digits, all but ten of them
zeros in front, are more than the reference converts.) -/
structure PlainNumber (s : Bytes) : Prop where
  ne_nil : s ≠ []
  digits : s.all isDigit = true
  value : decValue s < 2 ^ 31
  length : s.length ≤ 4300

/-- A text neither side takes for a number.  What only one of them reads (`1_0`, or ten digits behind
4300 zeros) is neither this nor a `PlainNumber`. -/
structure AccountName (s : Bytes) : Prop where
  not_c : isInt s = none
  not_python : int s = none

instance (s : Bytes) : Decidable (PlainNumber s) :=
  decidable_of_iff (s ≠ [] ∧ s.all isDigit = true ∧ decValue s < 2 ^ 31 ∧ s.length ≤ 4300)
    ⟨fun ⟨h1, h2, h3, h4⟩ => ⟨h1, h2, h3, h4⟩, fun ⟨h1, h2, h3, h4⟩ => ⟨h1, h2, h3, h4⟩⟩

instance (s : Bytes) : Decidable (AccountName s) :=
  decidable_of_iff (isInt s = none ∧ int s = none) ⟨fun ⟨h1, h2⟩ => ⟨h1, h2⟩, fun ⟨h1, h2⟩ => ⟨h1, h2⟩⟩

theorem PlainNumber.isInt_eq (h : PlainNumber s) : isInt s = some (decValue s : Int) := by
  have hn := isInt_text (Numeral.ofDigits s h.ne_nil (all_eq_true.mp h.digits))
  have hclamp : clampLong (decValue s : Int) = decValue s :=
    (clampLong_eq_natCast (lt_trans h.value (by decide))).mpr rfl
  rwa [Numeral.text_ofDigits, Numeral.value_ofDigits, hclamp] at hn

theorem digitsOf_eq (hne : s ≠ []) (h : s.all isDigit = true) : digitsOf s = some s := by
  fun_induction digitsOf s with
  | case1 => exact absurd rfl hne
  | case2 d hd => rfl
  | case3 d hd => simp [hd] at h
  | case4 d u rest hd => simp [hd] at h
  | case5 d rest hd ih => simp [show isDigit (ch '_') = false from rfl] at h
  | case6 d u rest hd hu ih =>
    simp only [all_cons, Bool.and_eq_true] at h
    rw [ih (by simp) (by simpa using h.2)]
    rfl

theorem PlainNumber.int_eq (h : PlainNumber s) : Felt.int s = some (decValue s : Int) := by
  have hdigit : ∀ b ∈ s, isDigit b = true := all_eq_true.mp h.digits
  have hstrip : Felt.strip s = s := by
    refine Text.trim_eq_self fun b hb => ?_
    have hb := hdigit b hb
    simp only [isDigit, Felt.isSpace, UInt8.le_iff_toNat_le, ← UInt8.toNat_inj, Bool.and_eq_true, Bool.or_eq_false_iff,
      Bool.and_eq_false_iff, decide_eq_true_eq, decide_eq_false_iff_not] at hb ⊢
    simp only [ch] at hb ⊢
    simp at hb ⊢
    omega
  have hminus : s.head? ≠ some (ch '-') := fun hc => isDigit_ne_minus (hdigit _ (mem_of_head? hc)) rfl
  have hplus : s.head? ≠ some (ch '+') := fun hc => isDigit_ne_plus (hdigit _ (mem_of_head? hc)) rfl
  have hlen : ¬ s.length > 4300 := by
    have := h.length
    omega
  simp [Felt.int, hstrip, hminus, hplus, digitsOf_eq h.ne_nil h.digits, hlen]

theorem asInt32_eq_iff {id : Nat} (hid : id < 2 ^ 32) {u : Int} (hu : 0 ≤ u ∧ u < 2 ^ 31) :
    asInt32 id = u ↔ (id : Int) = u := by
  unfold asInt32
  split <;> omega

theorem longToInt_natCast {v : Nat} (h : v < 2 ^ 31) : longToInt v = v := by
  have hmod : ((v : Int) % 2 ^ 32).toNat = v := by omega
  rw [longToInt, hmod, asInt32, if_pos (by omega)]

theorem resolveSel_eq (db : Accounts) {kind : CtxKind} (hkind : kind = .user ∨ kind = .group) {sel : Bytes}
    (hne : sel ≠ []) (hsel : PlainNumber sel ∨ AccountName sel) :
    ∃ v, resolveSel db kind sel = some v ∧ ∀ u, 0 ≤ u ∧ u < 2 ^ 31 → (v = u ↔ (match int sel with
        | some w => some w
        | none => (db.find kind sel).map (fun id => (id : Int))) = some u) := by
  have hnodef : ¬ (kind = .default ∨ kind = .mandatory) := by
    rcases hkind with rfl | rfl <;> simp
  rw [resolveSel, if_neg hnodef, if_neg hne]
  rcases hsel with hnum | hname
  · refine ⟨decValue sel, ?_, fun u _ => ?_⟩
    · rw [hnum.isInt_eq]
      exact congrArg some (longToInt_natCast hnum.value)
    · rw [hnum.int_eq]
      exact Option.some_inj.symm
  · rw [hname.not_c, hname.not_python]
    cases hfind : db.find kind sel with
    | none =>
      refine ⟨-1, rfl, fun u hu => ?_⟩
      constructor
      · intro h
        omega
      · intro h
        cases h
    | some id =>
      have hid : id < 2 ^ 32 := by
        unfold Accounts.find at hfind
        split at hfind
        · exact db.uidOf_lt _ _ hfind
        · exact db.gidOf_lt _ _ hfind
      refine ⟨asInt32 id, rfl, fun u hu => ?_⟩
      rw [asInt32_eq_iff hid hu]
      exact Option.some_inj.symm

/-! ## Evaluation -/

/-- What the texts compared here keep to: no rule repeats an attribute, and a user or
group selector is a plain number or a name. -/
structure RawCtx.Tidy (c : RawCtx) : Prop where
  rules : ∀ r ∈ c.rules, (r.preds.map Pred.attr).Nodup
  selector : c.kind = .user ∨ c.kind = .group → c.sel ≠ [] → PlainNumber c.sel ∨ AccountName c.sel

instance (c : RawCtx) : Decidable c.Tidy :=
  decidable_of_iff
    ((∀ r ∈ c.rules, (r.preds.map Pred.attr).Nodup) ∧
      (c.kind = .user ∨ c.kind = .group → c.sel ≠ [] → PlainNumber c.sel ∨ AccountName c.sel))
    ⟨fun ⟨h1, h2⟩ => ⟨h1, h2⟩, fun ⟨h1, h2⟩ => ⟨h1, h2⟩⟩

theorem contains_congr {l : List Int} {v w : Int} (h : ∀ u ∈ l, (v = u ↔ w = u)) : l.contains v = l.contains w := by
  rw [Bool.eq_iff_iff, contains_iff_mem, contains_iff_mem]
  constructor
  · intro hv
    rwa [(h v hv).mp rfl]
  · intro hw
    rwa [(h w hw).mpr rfl]

theorem applicable_eq (db : Accounts) (hreq : InDomain req) (serial : Option Nat) {c : RawCtx}
    {p : Felt.Context} (hcorr : Corr c p) (htidy : c.Tidy) :
    Felt.applicable db p (feltRequest req serial) = applicable (c.resolve db) req := by
  have hsel := htidy.selector
  have hpsel := hcorr.selector
  unfold Felt.applicable applicable
  rw [hcorr.kind]
  cases hk : c.kind with
  | default => simp [RawCtx.resolve, hk, CtxKind.text]
  | mandatory => simp [RawCtx.resolve, hk, CtxKind.text]
  | user =>
    have hno : ¬ (cstr "user" = cstr "default" ∨ cstr "user" = cstr "mandatory") := by decide
    simp only [RawCtx.resolve, hk, CtxKind.text, if_neg hno, if_true, feltRequest, hreq.uid.1, decide_true,
      Bool.true_and]
    by_cases hempty : c.sel = []
    · rw [hpsel, if_pos hempty, hempty]
      rfl
    · obtain ⟨v, hv, hiff⟩ := resolveSel_eq db (.inl hk) hempty (hsel (.inl hk) hempty)
      rw [hk] at hv hiff
      rw [hpsel, if_neg hempty, hv]
      have huid := hiff req.uid hreq.uid
      simp only [Accounts.find, if_true] at huid
      cases hint : int c.sel with
      | some w => simpa [hint] using huid.symm
      | none => simpa [hint] using huid.symm
  | group =>
    have hno : ¬ (cstr "group" = cstr "default" ∨ cstr "group" = cstr "mandatory") := by decide
    have hno' : ¬ (cstr "group" = cstr "user") := by decide
    simp only [RawCtx.resolve, hk, CtxKind.text, if_neg hno, if_neg hno', if_true, feltRequest]
    by_cases hgids : req.gids = []
    · simp [hgids]
    · simp only [hgids, if_false, ne_eq, not_false_eq_true, decide_true, Bool.true_and]
      by_cases hempty : c.sel = []
      · rw [hpsel, if_pos hempty, hempty]
        rfl
      · obtain ⟨v, hv, hiff⟩ := resolveSel_eq db (.inr hk) hempty (hsel (.inr hk) hempty)
        rw [hk] at hv hiff
        rw [hpsel, if_neg hempty, hv]
        simp only [Accounts.find, reduceCtorEq, if_false] at hiff
        dsimp only
        cases hint : int c.sel with
        | some w =>
          refine contains_congr fun u hu => ?_
          simpa [hint] using (hiff u (hreq.gids u hu)).symm
        | none =>
          rw [hint] at hiff
          cases hgid : db.gidOf c.sel with
          | none =>
            have hv : v ∉ req.gids := by
              intro hin
              have := (hiff v (hreq.gids v hin)).mp rfl
              simp [hgid] at this
            simpa using hv
          | some id =>
            refine contains_congr fun u hu => ?_
            simpa [hgid] using (hiff u (hreq.gids u hu)).symm

def feltRules (db : Accounts) (ps : List Felt.Context) (request : Felt.Request) : List Felt.Rule :=
  [cstr "default", cstr "group", cstr "user", cstr "mandatory"].flatMap (fun k =>
    (ps.filter (fun p => decide (p.kind = k) && Felt.applicable db p request)).flatMap Felt.Context.rules)

theorem evaluate_eq (db : Accounts) (ps : List Felt.Context) (request : Felt.Request) : Felt.evaluate db ps request =
      if Felt.isRequestedReply request then cstr "allow"
      else (feltRules db ps request).foldl
        (fun verdict rule => if Felt.ruleMatches rule request then rule.decision else verdict) (cstr "deny") := by
  have hinner (l : List Felt.Context) (v : Bytes) : l.foldl (fun verdict context =>
        if Felt.applicable db context request then
          context.rules.foldl
            (fun verdict rule => if Felt.ruleMatches rule request then rule.decision else verdict) verdict
        else verdict) v =
      ((l.filter (fun p => Felt.applicable db p request)).flatMap Felt.Context.rules).foldl
        (fun verdict rule => if Felt.ruleMatches rule request then rule.decision else verdict) v := by
    induction l generalizing v with
    | nil => rfl
    | cons c l ih =>
      rw [foldl_cons, ih, filter_cons]
      split
      · rw [flatMap_cons, foldl_append]
      · rfl
  rw [Felt.evaluate]
  split
  · rfl
  · rw [hinner]
    simp [feltRules, Bool.and_comm]

theorem isRequestedReply_eq {serial : Option Nat} (hserial : req.hasReplySerial = serial.isSome) :
    Felt.isRequestedReply (feltRequest req serial) = isRequestedReply req := by
  have hsend : (feltRequest req serial).op = cstr "send" ↔ req.op = .send := ReqOp.text_inj req.op .send
  simp only [Felt.isRequestedReply, isRequestedReply, hsend, hserial]
  rfl

abbrev TidyCorr (c : RawCtx) (p : Felt.Context) : Prop :=
  c.Tidy ∧ Corr c p

theorem rules_corr (db : Accounts) (hreq : InDomain req) (serial : Option Nat)
    (h : List.Forall₂ TidyCorr cs ps) (recv : Bool) :
    List.Forall₂ (fun r q => (r.preds.map Pred.attr).Nodup ∧ SameRule r q)
      (orderedRules { ctxs := cs.map (RawCtx.resolve db), hasRecvRule := recv } req)
      (feltRules db ps (feltRequest req serial)) := by
  have hkinds : List.Forall₂ (fun (k : CtxKind) (s : Bytes) => s = k.text) [CtxKind.default, .group, .user, .mandatory]
      [cstr "default", cstr "group", cstr "user", cstr "mandatory"] :=
    .cons rfl (.cons rfl (.cons rfl (.cons rfl .nil)))
  refine rel_flatMap hkinds ?_
  rintro k _ rfl
  have hctxs : List.Forall₂ (fun (c : Ctx) p => ∃ raw, c = RawCtx.resolve db raw ∧ TidyCorr raw p)
      (cs.map (RawCtx.resolve db)) ps :=
    forall₂_map_left_iff.mpr (h.imp fun raw _ hraw => ⟨raw, rfl, hraw⟩)
  refine rel_flatMap (rel_filter ?_ hctxs) ?_
  · rintro _ p ⟨raw, rfl, htidy, hcorr⟩
    have hkind : p.kind = k.text ↔ (raw.resolve db).kind = k := by
      rw [hcorr.kind, CtxKind.text_inj]
      rfl
    simp [applicable_eq db hreq serial hcorr htidy, hkind]
  · rintro _ p ⟨raw, rfl, htidy, hcorr⟩
    exact (forall₂_and_left _ _).mpr ⟨htidy.rules, hcorr.rules⟩

/-- **The two engines agree.**  On a printable text that both accept and that keeps to the
rules of `RawCtx.Tidy`, and on a request of the domain, the broker's engine allows
exactly what the reference allows. -/
theorem policies_agree (db : Accounts) {text : Bytes} (htext : Printable text) {pol : Policy} {cs : List RawCtx}
    {ps : List Felt.Context} (hpol : policyParse db text = some pol) (hps : parsePolicy text = some ps)
    (hcs : policyContexts text = some cs) (htidy : ∀ c ∈ cs, c.Tidy) {req : PolicyReq} {serial : Option Nat}
    (hreq : InDomain req) (hserial : req.hasReplySerial = serial.isSome) :
    policyEval pol req = true ↔ evaluate db ps (feltRequest req serial) = cstr "allow" := by
  obtain ⟨ps', hps', hcorr⟩ := parsePolicy_corr htext hcs
  obtain rfl : ps' = ps := Option.some.inj (hps'.symm.trans hps)
  have hrules := rules_corr db hreq serial ((forall₂_and_left _ _).mpr ⟨htidy, hcorr⟩)
    (cs.any (fun c => c.rules.any isReceive))
  obtain rfl : _ = pol := Option.some.inj (by simpa [policyParse, hcs] using hpol)
  rw [evaluate_eq, policyEval, isRequestedReply_eq hserial]
  split
  · simp
  · -- the verdicts correspond after each rule
    have hstep : ∀ (v : Bool) (w : Bytes), w = decision v → ∀ (r : Rule) (q : Felt.Rule),
        ((r.preds.map Pred.attr).Nodup ∧ SameRule r q) →
          (if Felt.ruleMatches q (feltRequest req serial) then q.decision else w) =
            decision (if ruleMatches r req then r.allow else v) := by
      rintro v w rfl r q ⟨hnd, hsame⟩
      rw [ruleMatches_eq hreq serial hsame hnd, hsame.1]
      split <;> rfl
    have hverdict := rel_foldl hstep
      (show cstr "deny" = decision false from rfl) hrules
    rw [hverdict]
    exact (decision_eq_allow _).symm

def wheelAccounts : Accounts where
  uidOf _ := none
  gidOf name := if name = cstr "wheel" then some 10 else none
  uidOf_lt _ _ h := by cases h
  gidOf_lt := by
    intro name id h
    split at h
    · cases h
      decide
    · cases h

def wheelText : Bytes :=
  cstr "# who may own what\ncontext = user:1000\ndeny = own:org.b.Lock\n\tcontext = group : wheel # by name\nallow = own_prefix:org.b, user:*\n"

def wheelRequest : PolicyReq where
  op := .own
  uid := 1000
  gids := [1000, 10]
  name := some (cstr "org.b.Lock")

theorem policies_agree_wheel :
    ∃ pol cs ps, policyParse wheelAccounts wheelText = some pol ∧ policyContexts wheelText = some cs ∧
      (∀ c ∈ cs, c.Tidy) ∧ cs.length = 2 ∧ parsePolicy wheelText = some ps ∧
      (policyEval pol wheelRequest = true ↔
        evaluate wheelAccounts ps (feltRequest wheelRequest none) = cstr "allow") := by
  have hcs : policyContexts wheelText = some ((policyContexts wheelText).getD []) := by decide +kernel
  have hps : parsePolicy wheelText = some ((parsePolicy wheelText).getD []) := by decide +kernel
  have hpol : policyParse wheelAccounts wheelText =
      some ((policyParse wheelAccounts wheelText).getD defaultPolicy) := by decide +kernel
  have htidy : ∀ c ∈ (policyContexts wheelText).getD [], c.Tidy := by decide +kernel
  have htext : Printable wheelText := by
    unfold Printable
    decide +kernel
  have hreq : InDomain wheelRequest := by
    refine ⟨by decide, by decide, by decide, by decide⟩
  exact ⟨_, _, _, hpol, hcs, htidy, by decide +kernel, hps,
    policies_agree wheelAccounts htext hpol hps hcs htidy hreq rfl⟩

end SchemaInit.Dbus
