/-
# `SchemaInit.Dbus.SnapshotFormat` — the snapshot as a format

The reader of `SchemaInit.Dbus.Snapshot` mirrors the format:

    snapP fails on the file                      ⟹  the reader declines
    snapP accepts, the descriptors do not fit    ⟹  the reader declines
    snapP accepts with x, they fit               ⟹  the reader builds what x says

part by part (`Flow.Mirrors`), through `Scan.Mirrors` for what is read between two
looks at the flag.
-/
import SchemaInit.Dbus.Snapshot

namespace SchemaInit.Dbus

open Flow Option List

variable (pfds : List Int) (n : Nat) (m : MatchSet) (now : Int)

open Scan Parser

/-! ## The format -/

def u32P : Parser UInt8 Nat :=
  Parser.map (fun w => rdU32 w 0 true) (Parser.take 4)

def i32P : Parser UInt8 Int :=
  Parser.map asInt32 u32P

def strP : Parser UInt8 Bytes :=
  Parser.bind u32P fun n => Parser.map cString (Parser.take n)

def countP {α : Type} (p : Parser UInt8 α) : Parser UInt8 (List α) :=
  Parser.bind u32P fun n => Parser.bind (Parser.need n) fun _ => Parser.times p n

def ruleP : Parser UInt8 MatchRule :=
  filterMap parseRule strP

def matchesP : Parser UInt8 (Option MatchSet) :=
  Parser.map (fun rules => if rules = [] then none else some rules) (countP ruleP)

def connHeadP : Parser UInt8 ConnHead :=
  Parser.bind i32P fun id => Parser.bind u32P fun fl => Parser.bind u32P fun uid => Parser.bind u32P fun gid =>
    Parser.bind i32P fun pid => Parser.bind u32P fun ng =>
      Parser.pure { id := id, fl := fl, uid := uid, gid := gid, pid := pid, ng := ng }

def identityP (ng : Nat) : Parser UInt8 (List Int × Bytes) :=
  Parser.bind (Parser.times i32P ng) fun gids => Parser.bind strP fun uq => Parser.pure (gids, uq)

def tailP : Parser UInt8 (Nat × Option MatchSet × Option MatchSet) :=
  Parser.bind u32P fun mon => Parser.bind matchesP fun rules => Parser.bind matchesP fun monRules =>
    Parser.pure (mon, rules, monRules)

/-- The fields of a connection as the file has them: the last but one number is that of the
descriptors it waits with. -/
abbrev ConnFields :=
  ConnHead × (List Int × Bytes) × Nat × Bytes × Nat × (Nat × Option MatchSet × Option MatchSet)

def fieldsP : Parser UInt8 ConnFields :=
  Parser.pair connHeadP fun head => Parser.bind (Parser.test (head.ng ≤ maxGids)) fun _ =>
    Parser.pair (identityP head.ng) fun _ => Parser.pair u32P fun inl =>
      Parser.bind (Parser.need inl) fun _ => Parser.bind (Parser.test (¬ inl > intMax)) fun _ =>
        Parser.pair (Parser.take inl) fun _ => Parser.pair u32P fun np =>
          Parser.bind (Parser.test (np ≤ maxPendingFds)) fun _ => tailP

/-- The connection these fields describe, and the number of its descriptors. -/
def ConnFields.conn : ConnFields → SavedConn × Nat
  | (head, (gids, uq), _, buf, np, mon, rules, monRules) => (connOf head gids uq buf mon rules monRules, np)

def connP : Parser UInt8 (SavedConn × Nat) :=
  Parser.map ConnFields.conn fieldsP

def holderP : Parser UInt8 (Int × Nat) :=
  Parser.bind i32P fun cid => Parser.bind u32P fun f => Parser.pure (cid, f)

def nameP : Parser UInt8 SavedName :=
  Parser.map (fun x => { name := x.1, holders := x.2 }) (Parser.pair strP fun _ => countP holderP)

def replyP (now : Int) : Parser UInt8 SavedReply :=
  Parser.bind i32P fun callee => Parser.bind i32P fun caller => Parser.bind u32P fun serial =>
    Parser.bind u32P fun left =>
      Parser.pure { callee := callee, caller := caller, serial := serial, live := true, deadline := now + left }

def frontP : Parser UInt8 (Nat × Nat × Nat × Nat × Nat × Nat) :=
  Parser.pair u32P fun magic => Parser.bind (Parser.test (magic = stateMagic)) fun _ =>
    Parser.pair u32P fun version => Parser.bind (Parser.test (version = stateVersion)) fun _ =>
      pair u32P fun _ => pair u32P fun _ => pair u32P fun _ => u32P

def hdrP : Parser UInt8 (StateHdr × Nat) :=
  Parser.map (fun x => ({ nextId := x.2.2.1, nextUnique := x.2.2.2.1, driverSerial := x.2.2.2.2.1 }, x.2.2.2.2.2))
    frontP

/-- What a snapshot says: the header, the connections, the names, the replies. -/
abbrev Snap := (StateHdr × Nat) × List (SavedConn × Nat) × List SavedName × List SavedReply

/-- The format of the snapshot as a parser: it knows nothing of cursors, flags, slots or
descriptors. -/
def snapP (now : Int) : Parser UInt8 Snap :=
  pair hdrP fun hdr => pair (times connP hdr.2) fun _ => pair (countP nameP) fun _ =>
    countP (replyP now)

/-! ## More behind a snapshot -/

theorem stable_u32P : Stable u32P := (Stable.take 4).map _

theorem stable_i32P : Stable i32P := stable_u32P.map _

theorem stable_strP : Stable strP := stable_u32P.bind fun n => (Stable.take n).map _

theorem stable_countP {α : Type} {p : Parser UInt8 α} (h : Stable p) : Stable (countP p) :=
  stable_u32P.bind fun n => (Stable.need n).bind fun _ => h.times n

theorem stable_matchesP : Stable matchesP := (stable_countP (stable_strP.filterMap _)).map _

theorem stable_connHeadP : Stable connHeadP :=
  stable_i32P.bind fun _ => stable_u32P.bind fun _ => stable_u32P.bind fun _ => stable_u32P.bind fun _ =>
    stable_i32P.bind fun _ => stable_u32P.bind fun _ => Stable.pure _

theorem stable_connP : Stable connP :=
  Stable.map _ (stable_connHeadP.pair fun head => (Stable.test _).bind fun _ =>
    ((stable_i32P.times head.ng).bind fun _ => stable_strP.bind fun _ => Stable.pure _).pair fun _ =>
      stable_u32P.pair fun inl => (Stable.need _).bind fun _ => (Stable.test _).bind fun _ =>
        (Stable.take inl).pair fun _ =>
        stable_u32P.pair fun _ => (Stable.test _).bind fun _ =>
          stable_u32P.bind fun _ => stable_matchesP.bind fun _ => stable_matchesP.bind fun _ => Stable.pure _)

theorem stable_nameP : Stable nameP :=
  Stable.map _ (stable_strP.pair fun _ =>
    stable_countP (stable_i32P.bind fun _ => stable_u32P.bind fun _ => Stable.pure _))

theorem stable_replyP : Stable (replyP now) :=
  stable_i32P.bind fun _ => stable_i32P.bind fun _ => stable_u32P.bind fun _ => stable_u32P.bind fun _ => Stable.pure _

theorem stable_hdrP : Stable hdrP :=
  Stable.map _ (stable_u32P.pair fun _ => (Stable.test _).bind fun _ => stable_u32P.pair fun _ =>
    (Stable.test _).bind fun _ => stable_u32P.pair fun _ => stable_u32P.pair fun _ => stable_u32P.pair fun _ =>
      stable_u32P)

theorem stable_snapP : Stable (snapP now) :=
  stable_hdrP.pair fun hdr => (stable_connP.times hdr.2).pair fun _ => (stable_countP stable_nameP).pair fun _ =>
    stable_countP (stable_replyP now)

/-! ## What is read between two looks at the flag -/

theorem follows_srU32 : Follows srU32 u32P id := ⟨(Mirrors.get 4).map fun _ => rfl, (Tame.get 4).map _⟩

theorem follows_srI32 : Follows srI32 i32P id := follows_srU32.map _

theorem tame_srStr : Tame srStr := follows_srU32.tame.bind fun n => (Tame.get n).map _

theorem tame_fail {α : Type} (a : α) : Tame (fun c : Cursor UInt8 => (a, c.fail)) where
  buf _ := rfl
  within _ h := { h with }
  sticky _ _ := rfl

theorem tame_srRules : Tame (srRules n m) := by
  induction n generalizing m with
  | zero => exact Tame.pure _
  | succ n ih =>
    refine tame_srStr.bind fun raw => ?_
    cases raw.bind (matchAdd m) with
    | none => exact tame_fail none
    | some m => exact ih m

theorem tame_addRule (raw : Option Bytes) : Tame (match raw.bind (matchAdd m) with
      | none => fun c : Cursor UInt8 => (none, c.fail)
      | some m => srRules n m) := by
  cases raw.bind (matchAdd m) with
  | none => exact tame_fail none
  | some m => exact tame_srRules n m

theorem tame_srMatchesOf : Tame (srMatchesOf n) := by
  unfold srMatchesOf
  constructor
  · intro c
    split
    · rfl
    · split
      · rfl
      · exact (tame_srRules n []).buf c
  · intro c hc
    split
    · exact { hc with }
    · split
      · exact hc
      · exact (tame_srRules n []).within c hc
  · intro c hc
    rw [if_pos (.inl hc)]
    rfl

theorem tame_srMatches : Tame srMatches := follows_srU32.tame.bind tame_srMatchesOf

theorem mirrors_srStr : Mirrors srStr strP some :=
  follows_srU32.mirrors.bind (fun n => (Mirrors.get n).map fun _ => rfl) fun n => (Tame.get n).map _

theorem mirrors_srRules : Mirrors (srRules n m) (Parser.times ruleP n) (fun rules => some (m ++ rules)) := by
  induction n generalizing m with
  | zero =>
    intro buf off hoff
    exact ⟨off, hoff, rfl, by simp [srRules, Scanner.pure]⟩
  | succ n ih =>
    intro buf off hoff
    have hstr := mirrors_srStr buf off hoff
    simp only [Parser.times, Parser.bind, srRules, Scanner.bind]
    cases hp : strP (buf.drop off) with
    | none =>
      have hrule : ruleP (buf.drop off) = none := by simp [ruleP, Parser.filterMap, Parser.bind, hp]
      rw [hp] at hstr
      rw [hrule]
      exact (tame_addRule n m _).sticky _ hstr
    | some x =>
      obtain ⟨raw, rest⟩ := x
      rw [hp] at hstr
      obtain ⟨off', hle, rfl, hval⟩ := hstr
      rw [hval]
      have hrule : ruleP (buf.drop off) = (parseRule raw).map (·, buf.drop off') := by
        simp [ruleP, Parser.filterMap, Parser.bind, hp]
      rw [hrule]
      cases hr : parseRule raw with
      | none => simp [matchAdd, hr, Cursor.fail]
      | some r =>
        have hrest := ih (m ++ [r]) buf off' hle
        simp only [map_some, bind_some, matchAdd, hr, Parser.map, Parser.bind, Parser.pure]
        cases ht : Parser.times ruleP n (buf.drop off') with
        | none =>
          rw [ht] at hrest
          exact hrest
        | some y =>
          rw [ht] at hrest
          obtain ⟨off'', hle', hy, hval'⟩ := hrest
          exact ⟨off'', hle', hy, by rw [hval']; simp⟩

theorem mirrors_srMatchesOf : Mirrors (srMatchesOf n) (Parser.bind (Parser.need n) fun _ => Parser.times ruleP n)
    (fun rules => if rules = [] then none else some rules) := by
  intro buf off hoff
  unfold srMatchesOf
  by_cases hn : n ≤ buf.length - off
  · have hneed : n ≤ (buf.drop off).length := by rwa [length_drop]
    have hgood : ¬ ((Cursor.good buf off).bad = true ∨ n > (Cursor.good buf off).left) := by
      rintro (hbad | hlong)
      · cases hbad
      · exact Nat.not_lt.mpr hn hlong
    simp only [Parser.bind, Parser.need, if_pos hneed, if_neg hgood]
    rcases Nat.eq_zero_or_pos n with rfl | hpos
    · exact ⟨off, hoff, rfl, rfl⟩
    · have hrules := mirrors_srRules n [] buf off hoff
      rw [if_neg (by omega)]
      cases ht : Parser.times ruleP n (buf.drop off) with
      | none =>
        rw [ht] at hrules
        exact hrules
      | some y =>
        rw [ht] at hrules
        obtain ⟨off', hle, hy, hval⟩ := hrules
        have hne : y.1 ≠ [] := by
          intro h0
          have hlen := Parser.length_of_times ht
          rw [h0, length_nil] at hlen
          omega
        exact ⟨off', hle, hy, by rw [hval, if_neg hne]; rfl⟩
  · have hneed : ¬ n ≤ (buf.drop off).length := by rwa [length_drop]
    have hbad : (Cursor.good buf off).bad = true ∨ n > (Cursor.good buf off).left := .inr (Nat.not_le.mp hn)
    simp only [Parser.bind, Parser.need, if_neg hneed, if_pos hbad]
    rfl

theorem follows_srMatches : Follows srMatches matchesP id :=
  ⟨(follows_srU32.mirrors.bind mirrors_srMatchesOf tame_srMatchesOf).present, tame_srMatches⟩

theorem follows_srConnHead : Follows srConnHead connHeadP id :=
  follows_srI32.bind fun _ => follows_srU32.bind fun _ => follows_srU32.bind fun _ => follows_srU32.bind fun _ =>
    follows_srI32.bind fun _ => follows_srU32.bind fun _ => Follows.pure _ id

theorem follows_srIdentity (ng : Nat) : Follows (srIdentity ng) (identityP ng) (fun x => (x.1, some x.2)) := by
  refine (follows_srI32.times ng).bind fun gids => ⟨?_, tame_srStr.bind fun _ => Tame.pure _⟩
  exact mirrors_srStr.bind (fun uq => Mirrors.pure (gids, uq) (fun x : List Int × Bytes => (x.1, some x.2)))
    fun _ => Tame.pure _

theorem follows_srTail : Follows srTail tailP id :=
  follows_srU32.bind fun _ => follows_srMatches.bind fun _ => follows_srMatches.bind fun _ => Follows.pure _ id

theorem follows_srHolder : Follows srHolder holderP id :=
  follows_srI32.bind fun _ => follows_srU32.bind fun _ => Follows.pure _ id

theorem follows_srReply : Follows (srReply now) (replyP now) id :=
  follows_srI32.bind fun _ => follows_srI32.bind fun _ => follows_srU32.bind fun _ => follows_srU32.bind fun _ =>
    Follows.pure _ id

/-! ## The parts of the reader -/

def Flow.Declined (fl : Flow) : Prop :=
  ∃ rc s, rc < 0 ∧ fl = .out rc s

theorem Flow.declined_out {rc : Int} (h : rc < 0) (s : Reading) : (Flow.out rc s).Declined := ⟨rc, s, h, rfl⟩

theorem Flow.Declined.andThen {fl : Flow} (h : fl.Declined) (f : Reading → Flow) : (fl.andThen f).Declined := by
  obtain ⟨rc, s, hrc, rfl⟩ := h
  exact ⟨rc, s, hrc, rfl⟩

/-- The part of the reader does with what is built so far what `e` says of the value the
format has here; it declines if the format has none, or `e` has no answer. -/
def Flow.Mirrors {α : Type} (f : Reading → Flow) (p : Parser UInt8 α) (e : α → Built → Option Built) : Prop :=
  ∀ b buf off, off ≤ buf.length →
    match p (buf.drop off) with
    | none => (f ⟨b, Cursor.good buf off⟩).Declined
    | some (a, rest) =>
      match e a b with
      | none => (f ⟨b, Cursor.good buf off⟩).Declined
      | some b' => ∃ off' ≤ buf.length, rest = buf.drop off' ∧
          f ⟨b, Cursor.good buf off⟩ = .go ⟨b', Cursor.good buf off'⟩

structure Flow.Follows {α : Type} (f : Reading → Flow) (p : Parser UInt8 α) (e : α → Built → Option Built) : Prop where
  mirrors : Flow.Mirrors f p e
  hard : ∀ s, s.cur.bad = true → (f s).Declined

namespace Flow.Mirrors

variable {α β : Type} {f : Reading → Flow} {p : Parser UInt8 α} {e : α → Built → Option Built}

theorem andThen {g : Reading → Flow} {q : α → Parser UInt8 β} {e' : β → Built → Option Built} (h : Flow.Mirrors f p e)
    (hg : ∀ a b b', e a b = some b' → Flow.Mirrors g (q a) e') :
    Flow.Mirrors (fun s => (f s).andThen g) (Parser.pair p q) (fun x b => (e x.1 b).bind (e' x.2)) := by
  intro b buf off hoff
  have hf := h b buf off hoff
  simp only [Parser.pair, Parser.bind, Parser.map, Parser.pure]
  cases hp : p (buf.drop off) with
  | none =>
    rw [hp] at hf
    exact hf.andThen g
  | some x =>
    obtain ⟨a, rest⟩ := x
    rw [hp] at hf
    dsimp only at hf ⊢
    cases he : e a b with
    | none =>
      rw [he] at hf
      cases q a rest with
      | none => exact hf.andThen g
      | some y =>
        simp only [he]
        exact hf.andThen g
    | some b' =>
      rw [he] at hf
      obtain ⟨off', hle, rfl, hval⟩ := hf
      have hgo := hg a b b' he b' buf off' hle
      rw [hval]
      cases hq : q a (buf.drop off') with
      | none =>
        rw [hq] at hgo
        exact hgo
      | some y =>
        rw [hq] at hgo
        simp only [he, bind_some]
        exact hgo

theorem map {g : α → β} {e' : β → Built → Option Built} (h : Flow.Mirrors f p e) (he : ∀ a b, e' (g a) b = e a b) :
    Flow.Mirrors f (Parser.map g p) e' := by
  intro b buf off hoff
  have hf := h b buf off hoff
  simp only [Parser.map, Parser.bind, Parser.pure]
  cases hp : p (buf.drop off) with
  | none =>
    rw [hp] at hf
    exact hf
  | some x =>
    rw [hp] at hf
    dsimp only
    rw [he]
    exact hf

def all (e : α → Built → Option Built) (as : List α) (b : Built) : Option Built :=
  as.foldlM (fun b a => e a b) b

theorem loop (h : Flow.Mirrors f p e) (n : Nat) : Flow.Mirrors (Flow.loop f n) (times p n) (all e) := by
  induction n with
  | zero => exact fun b buf off hoff => ⟨off, hoff, rfl, rfl⟩
  | succ n ih =>
    have hboth := h.andThen fun _ _ _ _ => ih
    rw [times_succ]
    refine hboth.map fun x b => ?_
    rw [all, foldlM_cons]
    rfl

end Flow.Mirrors

namespace Flow.Follows

variable {α β γ : Type}

theorem map {f : Reading → Flow} {p : Parser UInt8 α} {e : α → Built → Option Built} {g : α → β}
    {e' : β → Built → Option Built} (h : Flow.Follows f p e) (he : ∀ a b, e' (g a) b = e a b) :
    Flow.Follows f (Parser.map g p) e' := ⟨h.mirrors.map he, h.hard⟩

theorem readAs {f : Scanner UInt8 γ} {p : Parser UInt8 α} {g : α → γ} (h : Scan.Follows f p g) {k : γ → Reading → Flow}
    {q : α → Parser UInt8 β} {e : α → β → Built → Option Built} (hk : ∀ a, Flow.Follows (k (g a)) (q a) (e a))
    (hhard : ∀ c s, s.cur.bad = true → (k c s).Declined) :
    Flow.Follows (fun s => s.read f k) (Parser.pair p q) (fun x b => e x.1 x.2 b) := by
  constructor
  · intro b buf off hoff
    have hf := h.mirrors buf off hoff
    simp only [Parser.pair, Parser.map, Parser.bind, Parser.pure, Reading.read]
    cases hp : p (buf.drop off) with
    | none =>
      rw [hp] at hf
      exact hhard _ _ hf
    | some x =>
      rw [hp] at hf
      obtain ⟨off', hle, hrest, hval⟩ := hf
      dsimp only
      rw [hval, hrest]
      have hgo := (hk x.1).mirrors b buf off' hle
      cases hq : q x.1 (buf.drop off') with
      | none =>
        rw [hq] at hgo
        exact hgo
      | some y =>
        rw [hq] at hgo
        exact hgo
  · intro s hs
    exact hhard _ _ (h.tame.sticky _ hs)

theorem read {f : Scanner UInt8 α} {p : Parser UInt8 α} (h : Scan.Follows f p id) {k : α → Reading → Flow}
    {q : α → Parser UInt8 β} {e : α → β → Built → Option Built} (hk : ∀ a, Flow.Follows (k a) (q a) (e a)) :
    Flow.Follows (fun s => s.read f k) (pair p q) (fun x b => e x.1 x.2 b) :=
  readAs h hk fun a => (hk a).hard

theorem check {k : Reading → Flow} {q : Parser UInt8 β} {e : β → Built → Option Built} (hk : Flow.Follows k q e)
    (cond : Reading → Prop) [∀ s, Decidable (cond s)] (c : Bool) (d : Built → Bool) (rc : Reading → Int)
    (hrc : ∀ s, rc s < 0)
    (hcond : ∀ b buf off, off ≤ buf.length → (cond ⟨b, Cursor.good buf off⟩ ↔ c = false ∨ d b = false)) :
    Flow.Follows (fun s => if cond s then .out (rc s) s else k s) (Parser.bind (Parser.test c) fun _ => q)
      (fun x b => if d b then e x b else none) := by
  constructor
  · intro b buf off hoff
    have hiff := hcond b buf off hoff
    cases c with
    | false =>
      dsimp only
      rw [if_pos (hiff.mpr (.inl rfl))]
      exact declined_out (hrc _) _
    | true =>
      have hgo := hk.mirrors b buf off hoff
      simp only [Parser.bind, Parser.test, if_true]
      cases hd : d b with
      | false =>
        rw [if_pos (hiff.mpr (.inr hd))]
        cases q (buf.drop off) with
        | none => exact declined_out (hrc _) _
        | some y =>
          simp only [Bool.false_eq_true, if_false]
          exact declined_out (hrc _) _
      | true =>
        have hno : ¬ cond ⟨b, Cursor.good buf off⟩ := by
          intro hc
          have := hiff.mp hc
          simp [hd] at this
        rw [if_neg hno]
        cases hq : q (buf.drop off) with
        | none =>
          rw [hq] at hgo
          exact hgo
        | some y =>
          rw [hq] at hgo
          simp only [if_true]
          exact hgo
  · intro s hs
    split
    · exact declined_out (hrc _) _
    · exact hk.hard s hs

theorem stored {k : Reading → Flow} {q : Parser UInt8 β} {e : β → Built → Option Built} (hk : Flow.Follows k q e)
    (m : Built → Built) : Flow.Follows (fun s => k ⟨m s.toBuilt, s.cur⟩) q (fun x b => e x (m b)) :=
  ⟨fun b buf off hoff => hk.mirrors (m b) buf off hoff, fun s hs => hk.hard ⟨m s.toBuilt, s.cur⟩ hs⟩

theorem dep {k : Built → Reading → Flow} {q : Parser UInt8 β} {e : Built → β → Built → Option Built}
    (hk : ∀ b, Flow.Follows (k b) q (e b)) : Flow.Follows (fun s => k s.toBuilt s) q (fun x b => e b x b) :=
  ⟨fun b buf off hoff => (hk b).mirrors b buf off hoff, fun s hs => (hk s.toBuilt).hard s hs⟩

theorem sized {k : Reading → Flow} {q : Parser UInt8 β} {e : β → Built → Option Built} (hk : Flow.Follows k q e)
    (n : Nat) (cond : Prop) [Decidable cond] :
    Flow.Follows (fun s => if s.cur.bad ∨ n > s.cur.left ∨ cond then .out (-1) s else k s)
      (Parser.bind (Parser.need n) fun _ => Parser.bind (Parser.test (¬ cond)) fun _ => q) e := by
  constructor
  · intro b buf off hoff
    have hlen : (buf.drop off).length = buf.length - off := length_drop
    simp only [Parser.bind, Parser.need, Parser.test, hlen]
    by_cases hcond : (Cursor.good buf off).bad = true ∨ n > (Cursor.good buf off).left ∨ cond
    · rw [if_pos hcond]
      rcases hcond with hbad | hlong | hc
      · cases hbad
      · have hn : ¬ n ≤ buf.length - off := Nat.not_le.mpr hlong
        rw [if_neg hn]
        exact declined_out (by decide) _
      · have hno : decide (¬ cond) = false := decide_eq_false fun h => h hc
        simp only [hno, Bool.false_eq_true, if_false]
        cases hneed : (if n ≤ buf.length - off then some ((), buf.drop off) else none) with
        | none => exact declined_out (by decide) _
        | some x => exact declined_out (by decide) _
    · have hn : n ≤ buf.length - off := Nat.not_lt.mp fun h => hcond (.inr (.inl h))
      have hc : decide (¬ cond) = true := decide_eq_true fun h => hcond (.inr (.inr h))
      rw [if_neg hcond, if_pos hn]
      simp only [hc, if_true]
      exact hk.mirrors b buf off hoff
  · intro s hs
    rw [if_pos (.inl hs)]
    exact declined_out (by decide) s

theorem last {f : Scanner UInt8 γ} {p : Parser UInt8 α} {g : α → γ} (h : Scan.Follows f p g)
    {cond : γ → Reading → Prop} [∀ c s, Decidable (cond c s)] {m : γ → Built → Built} {d : α → Built → Bool}
    (hcond : ∀ a b buf off, cond (g a) ⟨b, Cursor.good buf off⟩ ↔ d a b = false)
    (hbad : ∀ c s, s.cur.bad = true → cond c s) :
    Flow.Follows (fun s => s.read f fun c s => if cond c s then .out (-1) s else .go ⟨m c s.toBuilt, s.cur⟩) p
      (fun a b => if d a b then some (m (g a) b) else none) := by
  constructor
  · intro b buf off hoff
    have hf := h.mirrors buf off hoff
    dsimp only [Reading.read]
    cases hp : p (buf.drop off) with
    | none =>
      rw [hp] at hf
      rw [if_pos (hbad _ _ hf)]
      exact declined_out (by decide) _
    | some x =>
      rw [hp] at hf
      obtain ⟨off', hle, hrest, hval⟩ := hf
      rw [hval]
      dsimp only
      cases hd : d x.1 b with
      | false =>
        rw [if_pos ((hcond x.1 b buf off').mpr hd)]
        exact declined_out (by decide) _
      | true =>
        have hno : ¬ cond (g x.1) ⟨b, Cursor.good buf off'⟩ := by
          intro hc
          have hfalse := (hcond x.1 b buf off').mp hc
          rw [hd] at hfalse
          cases hfalse
        rw [if_neg hno]
        exact ⟨off', hle, hrest, rfl⟩
  · intro s hs
    dsimp only [Reading.read]
    rw [if_pos (hbad _ _ (h.tame.sticky _ hs))]
    exact declined_out (by decide) _

theorem store {f : Scanner UInt8 α} {p : Parser UInt8 α} (h : Scan.Follows f p id) (m : α → Built → Built) :
    Flow.Follows (fun s => s.read f fun a s => if s.cur.bad then .out (-1) s else .go ⟨m a s.toBuilt, s.cur⟩) p
      (fun a b => some (m a b)) :=
  last (d := fun _ _ => true) h (fun a b buf off => by simp [Cursor.good]) fun _ _ hs => hs

theorem count {k : Nat → Reading → Flow} {p : Parser UInt8 α} {e : List α → Built → Option Built}
    (hk : ∀ n, Flow.Mirrors (k n) (Parser.times p n) e) : Flow.Follows (readCount k) (countP p) e := by
  constructor
  · intro b buf off hoff
    have hf := follows_srU32.mirrors buf off hoff
    simp only [countP, Parser.bind, readCount, Reading.read]
    cases hp : u32P (buf.drop off) with
    | none =>
      rw [hp] at hf
      rw [if_pos (.inl hf)]
      exact declined_out (by decide) _
    | some x =>
      obtain ⟨n, rest⟩ := x
      rw [hp] at hf
      obtain ⟨off', hle, rfl, hval⟩ := hf
      rw [hval]
      dsimp only [id]
      by_cases hn : n ≤ buf.length - off'
      · have hneed : n ≤ (buf.drop off').length := by rwa [length_drop]
        have hgood : ¬ ((Cursor.good buf off').bad = true ∨ n > (Cursor.good buf off').left) := by
          rintro (hbad | hlong)
          · cases hbad
          · exact Nat.not_lt.mpr hn hlong
        simp only [Parser.need, if_pos hneed, if_neg hgood]
        exact hk n b buf off' hle
      · have hneed : ¬ n ≤ (buf.drop off').length := by rwa [length_drop]
        have hbad : (Cursor.good buf off').bad = true ∨ n > (Cursor.good buf off').left := .inr (Nat.not_le.mp hn)
        simp only [Parser.need, if_neg hneed, if_pos hbad]
        exact declined_out (by decide) _
  · intro s hs
    simp only [readCount, Reading.read]
    rw [if_pos (.inl (follows_srU32.tame.sticky _ hs))]
    exact declined_out (by decide) _

end Flow.Follows

/-! ## What the reader builds -/

def effHolder (name : Bytes) (h : Int × Nat) (b : Built) : Option Built :=
  some { b with sn := b.sn.addHolder name h }

def effName (e : SavedName) (b : Built) : Option Built :=
  Flow.Mirrors.all (effHolder e.name) e.holders { b with sn := b.sn.intern e.name }

def effReply (r : SavedReply) (b : Built) : Option Built :=
  some { b with rents := b.rents ++ [r] }

def effConn (pfds : List Int) (fd : Int) (x : SavedConn × Nat) (b : Built) : Option Built :=
  if x.2 ≤ pfds.length - b.usedPfds then
    some { b with
      slots := b.slots.set b.built (some { x.1 with fd := fd, pendingFds := (pfds.drop b.usedPfds).take x.2 })
      built := b.built + 1
      usedPfds := b.usedPfds + x.2
      sn := match x.1.unique with
        | none => b.sn
        | some u => b.sn.addUnique x.1.id u }
  else none

def effConns (pfds : List Int) : List Int → List (SavedConn × Nat) → Built → Option Built
  | fd :: fds, x :: xs, b => (effConn pfds fd x b).bind (effConns pfds fds xs)
  | _, _, b => some b

def effHdr (maxconns nconnFds : Nat) (x : StateHdr × Nat) (b : Built) : Option Built :=
  if x.2 ≤ maxconns ∧ x.2 = nconnFds then some { b with hdr := x.1 } else none

theorem follows_readHolder (name : Bytes) : Flow.Follows (readHolder name) holderP (effHolder name) :=
  Flow.Follows.store follows_srHolder fun h b => { b with sn := b.sn.addHolder name h }

theorem follows_readReply : Flow.Follows (readReply now) (replyP now) effReply :=
  Flow.Follows.store (follows_srReply now) fun r b => { b with rents := b.rents ++ [r] }

theorem follows_srStr : Follows srStr strP some := ⟨mirrors_srStr, tame_srStr⟩

theorem follows_readName : Flow.Follows readName nameP effName := by
  have hcount (nm : Bytes) : Flow.Follows (readCount (loop (readHolder nm))) (countP holderP)
      (Flow.Mirrors.all (effHolder nm)) := Flow.Follows.count fun n => (follows_readHolder nm).mirrors.loop n
  refine Flow.Follows.map (Flow.Follows.readAs follows_srStr
    (fun nm => (hcount nm).stored fun b => { b with sn := b.sn.intern nm }) ?_) fun _ _ => rfl
  intro nm s hs
  cases nm with
  | none => exact declined_out (by decide) s
  | some nm => exact ((hcount nm).stored fun b => { b with sn := b.sn.intern nm }).hard s hs

theorem follows_readHeader (maxconns nconnFds : Nat) :
    Flow.Follows (readHeader maxconns nconnFds) hdrP (effHdr maxconns nconnFds) := by
  have hnc : Flow.Follows (fun s => s.read srU32 fun nc s =>
      if s.cur.bad ∨ nc > maxconns ∨ nc ≠ nconnFds then .out (-1) s else .go s) u32P
      (fun nc b => if decide (nc ≤ maxconns ∧ nc = nconnFds) then some b else none) :=
    Flow.Follows.last (m := fun _ b => b) follows_srU32
      (fun nc b buf off => by simp [Cursor.good]; omega) fun _ _ hs => .inl hs
  have hlast (nextId nextUnique driverSerial : Nat) := hnc.stored
    fun b => { b with hdr := { nextId := nextId, nextUnique := nextUnique, driverSerial := driverSerial } }
  have hids := Flow.Follows.read follows_srU32 fun nextId => Flow.Follows.read follows_srU32 fun nextUnique =>
    Flow.Follows.read follows_srU32 (hlast nextId nextUnique)
  have hversion (version : Nat) := hids.check (fun _ => version ≠ stateVersion) (decide (version = stateVersion))
    (fun _ => true) (fun s => if s.cur.bad then -1 else -2) (fun s => by split <;> decide) (fun _ _ _ _ => by simp)
  have hmagic (magic : Nat) := (Flow.Follows.read follows_srU32 hversion).check (fun _ => magic ≠ stateMagic)
    (decide (magic = stateMagic)) (fun _ => true) (fun _ => -1) (fun _ => by decide) (fun _ _ _ _ => by simp)
  refine Flow.Follows.map (Flow.Follows.read follows_srU32 hmagic) fun x b => ?_
  simp [effHdr]

def effFields (pfds : List Int) (fd : Int) (x : SavedConn × Nat) (b : Built) : Option Built :=
  if x.2 ≤ pfds.length - b.usedPfds then
    some { b with
      slots := b.slots.set (b.built - 1) (some { x.1 with fd := fd, pendingFds := (pfds.drop b.usedPfds).take x.2 })
      usedPfds := b.usedPfds + x.2
      sn := match x.1.unique with
        | none => b.sn
        | some u => b.sn.addUnique x.1.id u }
  else none

theorem follows_readFields (fd : Int) : Flow.Follows (readFields pfds fd) connP (effFields pfds fd) := by
  have hpending (head : ConnHead) (gids : List Int) (uq buf : Bytes) (np : Nat) := Flow.Follows.dep fun b0 : Built =>
    (Flow.Follows.store follows_srTail fun t b =>
      { b with
        slots := b.slots.set (b.built - 1) (some
          { connOf head gids uq buf t.1 t.2.1 t.2.2 with fd := fd, pendingFds := (pfds.drop b0.usedPfds).take np }) }).stored
      fun b => { b with usedPfds := b.usedPfds + np }
  have hnp (head : ConnHead) (gids : List Int) (uq buf : Bytes) (np : Nat) := (hpending head gids uq buf np).check
    (fun s => s.cur.bad ∨ np > maxPendingFds ∨ np > pfds.length - s.usedPfds) (decide (np ≤ maxPendingFds))
    (fun b => decide (np ≤ pfds.length - b.usedPfds)) (fun _ => -1) (fun _ => by decide)
    (fun _ _ _ _ => by simp [Cursor.good])
  have hbuf (head : ConnHead) (gids : List Int) (uq : Bytes) (inl : Nat) := Flow.Follows.readAs
    (⟨Mirrors.get inl, Tame.get inl⟩ : Follows (Cursor.get inl) (take inl) some)
    (fun buf => Flow.Follows.read follows_srU32 (hnp head gids uq buf))
    fun buf => (Flow.Follows.read follows_srU32 (hnp head gids uq (buf.getD []))).hard
  have hrest (head : ConnHead) (gids : List Int) (uq : Bytes) := (Flow.Follows.read follows_srU32 fun inl =>
    (hbuf head gids uq inl).sized inl (inl > intMax)).stored
      fun b => { b with sn := if uq = [] then b.sn else b.sn.addUnique head.id uq }
  have hident (head : ConnHead) := Flow.Follows.readAs (follows_srIdentity head.ng)
    (k := fun ident s => match ident.2 with
      | none => .out (-1) s
      | some uq => readRest pfds fd head ident.1 uq s) (fun x => hrest head x.1 x.2) (fun ident s hs => by
        obtain ⟨gids, uq⟩ := ident
        cases uq with
        | none => exact declined_out (by decide) s
        | some uq => exact (hrest head gids uq).hard s hs)
  have hhead (head : ConnHead) := (hident head).check (fun s => s.cur.bad ∨ head.ng > maxGids)
    (decide (head.ng ≤ maxGids)) (fun _ => true) (fun _ => -1) (fun _ => by decide)
    (fun _ _ _ _ => by simp [Cursor.good])
  refine Flow.Follows.map (Flow.Follows.read follows_srConnHead hhead) ?_
  rintro ⟨head, ⟨gids, uq⟩, inl, buf, np, mon, rules, monRules⟩ b
  by_cases huq : uq = []
  · simp [effFields, ConnFields.conn, connOf, huq]
  · simp [effFields, ConnFields.conn, connOf, huq]

theorem follows_readConn (fd : Int) : Flow.Follows (readConn pfds fd) connP (effConn pfds fd) := by
  have h := (follows_readFields pfds fd).stored
    fun b => { b with slots := b.slots.set b.built (some (SavedConn.blank fd)), built := b.built + 1 }
  have heff : (fun x b => effFields pfds fd x
      { b with slots := b.slots.set b.built (some (SavedConn.blank fd)), built := b.built + 1 }) = effConn pfds fd := by
    funext x b
    simp [effFields, effConn]
  rw [heff] at h
  exact h

theorem mirrors_readConns (fds : List Int) :
    Flow.Mirrors (readConns pfds fds) (Parser.times connP fds.length) (effConns pfds fds) := by
  induction fds with
  | nil =>
    intro b buf off hoff
    exact ⟨off, hoff, rfl, rfl⟩
  | cons fd fds ih =>
    rw [length_cons, Parser.times_succ]
    have hboth := (follows_readConn pfds fd).mirrors.andThen
      fun _ _ _ _ => ih
    exact hboth.map fun x b => rfl

def effSnap (maxconns : Nat) (connFds pfds : List Int) (x : Snap) (b : Built) : Option Built :=
  (effHdr maxconns connFds.length x.1 b).bind fun b => (effConns pfds connFds x.2.1 b).bind fun b =>
    (Flow.Mirrors.all effName x.2.2.1 b).bind fun b => (Flow.Mirrors.all effReply x.2.2.2 b).bind fun b =>
      if b.usedPfds = pfds.length then some b else none

theorem mirrors_readEnd (npfds : Nat) :
    Flow.Mirrors (readEnd npfds) (Parser.pure ()) (fun _ b => if b.usedPfds = npfds then some b else none) := by
  intro b buf off hoff
  unfold readEnd
  simp only [Parser.pure, ne_eq]
  by_cases h : b.usedPfds = npfds
  · rw [if_pos h, if_neg (not_not.mpr h)]
    exact ⟨off, hoff, rfl, rfl⟩
  · rw [if_neg h, if_pos h]
    exact declined_out (by decide) _

theorem mirrors_readBody (maxconns : Nat) (connFds pfds : List Int) (now : Int) :
    Flow.Mirrors (readBody maxconns connFds pfds now) (snapP now) (effSnap maxconns connFds pfds) := by
  have hnames : Flow.Mirrors (readCount (loop readName)) (countP nameP) (Flow.Mirrors.all effName) :=
    (Flow.Follows.count fun n => follows_readName.mirrors.loop n).mirrors
  have hreplies : Flow.Mirrors (readCount (loop (readReply now))) (countP (replyP now))
      (Flow.Mirrors.all effReply) := (Flow.Follows.count fun n => (follows_readReply now).mirrors.loop n).mirrors
  have hend : Flow.Mirrors _ _ (fun x b => (Flow.Mirrors.all effReply x b).bind fun b =>
      if b.usedPfds = pfds.length then some b else none) :=
    (hreplies.andThen fun _ _ _ _ => mirrors_readEnd pfds.length).map
      fun _ _ => rfl
  rw [map_fst_pair_pure] at hend
  have htail := hnames.andThen fun _ _ _ _ => hend
  have hconns := (mirrors_readConns pfds connFds).andThen
    fun _ _ _ _ => htail
  have hall := (follows_readHeader maxconns connFds.length).mirrors.andThen
    (q := fun hdr => pair (times connP hdr.2) fun _ => pair (countP nameP) fun _ =>
      countP (replyP now)) fun hdr b b' hb' => by
    -- the header was accepted, so the number of connections is that of the descriptors
    have hnc : hdr.2 = connFds.length := by
      unfold effHdr at hb'
      split at hb'
      case isTrue h => exact h.2
      · cases hb'
    rw [hnc]
    exact hconns
  exact hall

end SchemaInit.Dbus
