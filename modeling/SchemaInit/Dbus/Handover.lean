/-
# `SchemaInit.Dbus.Handover` — what a snapshot carries over, and what a bad one does

Three facts about `sdbus_state_write` and `sdbus_state_read`:

    a snapshot of at most 64 MiB, read with the descriptors that belong to it, is
    accepted and gives back the connections, the names and the live replies
                                                              (`snapshot_round_trip`)
    a file that is refused leaves the registry, the replies and the caller's slots as
    they were, whatever it contains; no descriptor is closed, no byte outside the file
    is read; and no strict prefix of a snapshot is accepted   (`snapshot_refused_cleanly`)

The first is the format's `Reads`, carried through the reader's effects; the second
an invariant of the reader's parts, and `Scan.Reads.not_accepts`.
-/
import SchemaInit.Dbus.SnapshotFormat

namespace SchemaInit.Dbus

open Flow List

variable {b bytes : Bytes} {c : SavedConn} {e : SavedName} {now : Int} {s : BusState} {maxconns : Nat}
    {slots : List (Option SavedConn)} {P Q : Reading → Prop} {f : Reading → Flow}

open Scan

/-! ## What the types of the source can hold -/

def CText (b : Bytes) : Prop :=
  0 ∉ b ∧ b.length < 2 ^ 32

def InInt32 (v : Int) : Prop :=
  -2 ^ 31 ≤ v ∧ v < 2 ^ 31

/-- A rule that `sdbus_match_add` made: its text gives the same rule again. -/
@[mk_iff] structure MatchRule.Stored (r : MatchRule) : Prop where
  parse : parseRule r.raw = some r
  raw : CText r.raw

@[mk_iff] structure RulesStored (m : Option MatchSet) : Prop where
  rules : ∀ r ∈ m.getD [], r.Stored
  length : (m.getD []).length < 2 ^ 32

@[mk_iff] structure SavedConn.Storable (c : SavedConn) : Prop where
  id : InInt32 c.id
  uid : c.uid < 2 ^ 32
  gid : c.gid < 2 ^ 32
  pid : InInt32 c.pid
  gids : c.gids.length ≤ maxGids ∧ ∀ g ∈ c.gids, InInt32 g
  unique : ∀ u ∈ c.unique, u ≠ [] ∧ CText u
  inBuf : c.inBuf.length ≤ intMax
  pendingFds : c.pendingFds.length ≤ maxPendingFds
  rules : RulesStored c.rules
  monRules : RulesStored c.monRules

@[mk_iff] structure SavedName.Storable (e : SavedName) : Prop where
  name : CText e.name
  holders : ∀ h ∈ e.holders, InInt32 h.1 ∧ h.2 < 2 ^ 32
  length : e.holders.length < 2 ^ 32

@[mk_iff] structure SavedReply.Storable (now : Int) (r : SavedReply) : Prop where
  callee : InInt32 r.callee
  caller : InInt32 r.caller
  serial : r.serial < 2 ^ 32
  left : r.left now < 2 ^ 32

instance (b : Bytes) : Decidable (CText b) := inferInstanceAs (Decidable (_ ∧ _))

instance (v : Int) : Decidable (InInt32 v) := inferInstanceAs (Decidable (_ ∧ _))

instance (r : MatchRule) : Decidable r.Stored := decidable_of_iff _ (MatchRule.stored_iff r).symm

instance (m : Option MatchSet) : Decidable (RulesStored m) := decidable_of_iff _ (rulesStored_iff m).symm

instance (c : SavedConn) : Decidable c.Storable := decidable_of_iff _ (SavedConn.storable_iff c).symm

instance (e : SavedName) : Decidable e.Storable := decidable_of_iff _ (SavedName.storable_iff e).symm

instance (now : Int) (r : SavedReply) : Decidable (r.Storable now) :=
  decidable_of_iff _ (SavedReply.storable_iff now r).symm

/-- The state of a broker at time `now`: numbers within their types, names distinct, and
the unique names of the registry those of the connections. -/
structure BusState.Storable (now : Int) (s : BusState) : Prop where
  nextId : s.nextId < 2 ^ 32
  nextUnique : s.names.nextUnique < 2 ^ 32
  driverSerial : s.driverSerial < 2 ^ 32
  conns : ∀ c ∈ s.conns, c.Storable
  nconns : s.conns.length < 2 ^ 32
  names : ∀ e ∈ s.names.names, e.Storable
  nnames : s.names.names.length < 2 ^ 32
  distinct : (s.names.names.map SavedName.name).Nodup
  replies : ∀ r ∈ s.replies, r.live = true → r.Storable now
  nreplies : s.replies.length < 2 ^ 32
  ids : (s.conns.map SavedConn.id).Nodup
  uniques : (s.conns.filterMap fun c => c.unique.map (c.id, ·)).Perm s.names.uniques

/-! ## The format reads what was written -/

def wrap32 (v : Int) : Int :=
  asInt32 (v % 2 ^ 32).toNat

theorem wrap32_eq {v : Int} (h : InInt32 v) : wrap32 v = v := by
  obtain ⟨hlo, hhi⟩ := h
  unfold wrap32 asInt32
  split <;> omega

theorem reads_u32P (n : Nat) : Reads u32P (n % 2 ^ 32) (swU32 n) := by
  have hread := (Reads.take (w := swU32 n) rfl).map (fun w => rdU32 w 0 true)
  have hval : rdU32 (swU32 n) 0 true = n % 2 ^ 32 := by
    simp only [rdU32, swU32, byteAt, if_true, getD_eq_getElem?_getD]
    simp
    omega
  rwa [hval] at hread

theorem reads_u32P_of_lt {n : Nat} (h : n < 2 ^ 32) : Reads u32P n (swU32 n) := by
  have hread := reads_u32P n
  rwa [Nat.mod_eq_of_lt h] at hread

theorem reads_i32P (v : Int) : Reads i32P (wrap32 v) (swI32 v) := by
  have hlt : (v % 2 ^ 32).toNat < 2 ^ 32 := by omega
  exact (reads_u32P_of_lt hlt).map asInt32

theorem cString_eq (h : 0 ∉ b) : cString b = b := by
  rw [cString, takeWhile_eq_self_iff]
  intro x hx
  have hne : x ≠ 0 := by
    rintro rfl
    exact h hx
  simpa using hne

theorem reads_strP (h : b.length < 2 ^ 32) : Reads strP (cString b) (swBlob b) :=
  (reads_u32P_of_lt h).bind ((Reads.take rfl).map cString)

theorem reads_countP {α β : Type} {p : Parser UInt8 α} (val : β → α) (enc : β → Bytes) {xs : List β}
    (hn : xs.length < 2 ^ 32) (h : ∀ x ∈ xs, Reads p (val x) (enc x)) (hlen : ∀ x ∈ xs, 1 ≤ (enc x).length) :
    Reads (countP p) (xs.map val) (swU32 xs.length ++ xs.flatMap enc) := by
  have hall : xs.length ≤ (xs.flatMap enc).length := by
    clear hn h
    induction xs with
    | nil => exact le_refl _
    | cons x xs ih =>
      have hx := hlen x mem_cons_self
      have hrest := ih fun y hy => hlen y (mem_cons_of_mem _ hy)
      rw [flatMap_cons, length_append, length_cons]
      omega
  exact (reads_u32P_of_lt hn).bind (Reads.need_bind hall (Reads.times val h))

@[simp] theorem length_swU32 (n : Nat) : (swU32 n).length = 4 := rfl

@[simp] theorem length_swI32 (v : Int) : (swI32 v).length = 4 := rfl

@[simp] theorem length_swBlob (b : Bytes) : (swBlob b).length = 4 + b.length := by simp [swBlob]

def normRules (m : Option MatchSet) : Option MatchSet :=
  if m.getD [] = [] then none else m

theorem reads_ruleP {r : MatchRule} (h : r.Stored) : Reads ruleP r (swBlob r.raw) := by
  have hread := reads_strP h.raw.2
  rw [cString_eq h.raw.1] at hread
  exact hread.filterMap h.parse

theorem reads_matchesP {m : Option MatchSet} (h : RulesStored m) : Reads matchesP (normRules m) (swMatches m) := by
  have hlen (r : MatchRule) : 1 ≤ (swBlob r.raw).length := by
    rw [length_swBlob]
    omega
  have hcount := reads_countP id (fun r : MatchRule => swBlob r.raw) h.length (fun r hr => reads_ruleP (h.rules r hr))
    fun r _ => hlen r
  rw [map_id] at hcount
  have hmap := hcount.map (fun rules => if rules = [] then none else some rules)
  have hval : (if m.getD [] = [] then none else some (m.getD [])) = normRules m := by
    cases m with
    | none => rfl
    | some rules => rfl
  rwa [hval] at hmap

def SavedConn.filed (c : SavedConn) : SavedConn :=
  { c with fd := 0, pendingFds := [], oq := [], rules := normRules c.rules, monRules := normRules c.monRules }

theorem SavedConn.testBit_flagWord (c : SavedConn) :
    c.flagWord.testBit 0 = c.authed ∧ c.flagWord.testBit 1 = c.authOk ∧ c.flagWord.testBit 2 = c.saidHello ∧
      c.flagWord.testBit 3 = c.negotiatedFd ∧ c.flagWord.testBit 4 = c.sawNul ∧ c.flagWord < 2 ^ 32 := by
  unfold SavedConn.flagWord
  cases c.authed <;> cases c.authOk <;> cases c.saidHello <;> cases c.negotiatedFd <;> cases c.sawNul <;> decide

/-- What the reader checks of a connection; the rest it takes as it comes. -/
structure SavedConn.Readable (c : SavedConn) : Prop where
  gids : c.gids.length ≤ maxGids
  unique : (c.unique.getD []).length < 2 ^ 32
  inBuf : c.inBuf.length ≤ intMax
  pendingFds : c.pendingFds.length ≤ maxPendingFds
  rules : RulesStored c.rules
  monRules : RulesStored c.monRules

/-- The connection as the file has it, with numbers and strings as the source's types hold them. -/
def SavedConn.asRead (c : SavedConn) : SavedConn :=
  { c.filed with
    id := wrap32 c.id, uid := c.uid % 2 ^ 32, gid := c.gid % 2 ^ 32, pid := wrap32 c.pid, gids := c.gids.map wrap32
    unique := if cString (c.unique.getD []) = [] then none else some (cString (c.unique.getD [])) }

theorem SavedConn.Storable.readable (h : c.Storable) : c.Readable where
  gids := h.gids.1
  unique := by
    cases hu : c.unique with
    | none => decide
    | some u => exact (h.unique u hu).2.2
  __ := h

theorem SavedConn.Storable.asRead_eq (h : c.Storable) : c.asRead = c.filed := by
  have hgids : c.gids.map wrap32 = c.gids := by
    rw [map_congr_left fun g hg => wrap32_eq (h.gids.2 g hg), map_id']
  have hunique : (if cString (c.unique.getD []) = [] then none else some (cString (c.unique.getD []))) = c.unique := by
    cases hu : c.unique with
    | none => rfl
    | some u =>
      obtain ⟨hne, hnul, -⟩ := h.unique u hu
      simp [cString_eq hnul, hne]
  simp only [SavedConn.asRead, wrap32_eq h.id, wrap32_eq h.pid, Nat.mod_eq_of_lt h.uid, Nat.mod_eq_of_lt h.gid, hgids,
    hunique, SavedConn.filed]

theorem reads_connHeadP (h : c.Readable) : Reads connHeadP
      { id := wrap32 c.id, fl := c.flagWord, uid := c.uid % 2 ^ 32, gid := c.gid % 2 ^ 32, pid := wrap32 c.pid
        ng := c.gids.length }
      (swI32 c.id ++ (swU32 c.flagWord ++ (swU32 c.uid ++ (swU32 c.gid ++ (swI32 c.pid ++ swU32 c.gids.length))))) := by
  have hng : c.gids.length < 2 ^ 32 := lt_of_le_of_lt h.gids (by decide)
  exact (reads_i32P c.id).bind ((reads_u32P_of_lt c.testBit_flagWord.2.2.2.2.2).bind ((reads_u32P c.uid).bind
    ((reads_u32P c.gid).bind ((reads_i32P c.pid).bind ((reads_u32P_of_lt hng).map _)))))

theorem reads_identityP (h : c.Readable) :
    Reads (identityP c.gids.length) (c.gids.map wrap32, cString (c.unique.getD []))
      (c.gids.flatMap swI32 ++ swStr c.unique) :=
  (Reads.times wrap32 fun g _ => reads_i32P g).bind ((reads_strP h.unique).map _)

theorem reads_tailP (h : c.Readable) :
    Reads tailP (if c.isMonitor then 1 else 0, normRules c.rules, normRules c.monRules)
      (swU32 (if c.isMonitor then 1 else 0) ++ (swMatches c.rules ++ swMatches c.monRules)) := by
  have hmon : (if c.isMonitor then 1 else 0 : Nat) < 2 ^ 32 := by cases c.isMonitor <;> decide
  exact (reads_u32P_of_lt hmon).bind ((reads_matchesP h.rules).bind ((reads_matchesP h.monRules).map _))

theorem reads_connP (h : c.Readable) : Reads connP (c.asRead, c.pendingFds.length) (swConn c) := by
  have hbuf : c.inBuf.length < 2 ^ 32 := lt_of_le_of_lt h.inBuf (by decide)
  have hnp : c.pendingFds.length < 2 ^ 32 := lt_of_le_of_lt h.pendingFds (by decide)
  -- from the last field to the first
  have hpending := (reads_u32P_of_lt hnp).pair
    (q := fun np => Parser.bind (Parser.test (np ≤ maxPendingFds)) fun _ => tailP)
    ((Reads.test (decide_eq_true h.pendingFds)).bind (reads_tailP h))
  have htake := (Reads.take (w := c.inBuf) rfl).pair (q := fun _ => Parser.pair u32P
    fun np => Parser.bind (Parser.test (np ≤ maxPendingFds)) fun _ => tailP) hpending
  have hlen : c.inBuf.length ≤ (c.inBuf ++ (swU32 c.pendingFds.length ++ ([] ++
      (swU32 (if c.isMonitor then 1 else 0) ++ (swMatches c.rules ++ swMatches c.monRules))))).length := by
    rw [length_append]
    omega
  have hinl := (reads_u32P_of_lt hbuf).pair (q := fun inl => Parser.bind (Parser.need inl) fun _ =>
    Parser.bind (Parser.test (¬ inl > intMax)) fun _ => Parser.pair (Parser.take inl) fun _ => Parser.pair u32P
      fun np => Parser.bind (Parser.test (np ≤ maxPendingFds)) fun _ => tailP)
    (Reads.need_bind hlen ((Reads.test (decide_eq_true (not_lt.mpr h.inBuf))).bind htake))
  have hfields : Reads fieldsP _ _ := (reads_connHeadP h).pair
    ((Reads.test (decide_eq_true h.gids)).bind ((reads_identityP h).pair hinl))
  have hconn := hfields.map ConnFields.conn
  obtain ⟨h0, h1, h2, h3, h4, -⟩ := c.testBit_flagWord
  have hmon : (if c.isMonitor then 1 else 0 : Nat).testBit 0 = c.isMonitor := by cases c.isMonitor <;> rfl
  have hval : ConnFields.conn
      ({ id := wrap32 c.id, fl := c.flagWord, uid := c.uid % 2 ^ 32, gid := c.gid % 2 ^ 32, pid := wrap32 c.pid
         ng := c.gids.length },
        (c.gids.map wrap32, cString (c.unique.getD [])), c.inBuf.length, c.inBuf, c.pendingFds.length,
        if c.isMonitor then 1 else 0, normRules c.rules, normRules c.monRules) = (c.asRead, c.pendingFds.length) := by
    simp [ConnFields.conn, connOf, SavedConn.asRead, SavedConn.filed, h0, h1, h2, h3, h4, hmon]
  rw [hval] at hconn
  simpa [swConn, swBlob, swStr, connP] using hconn

def SavedName.asRead (e : SavedName) : SavedName where
  name := cString e.name
  holders := e.holders.map fun h => (wrap32 h.1, h.2 % 2 ^ 32)

theorem SavedName.Storable.asRead_eq (h : e.Storable) : e.asRead = e := by
  have hholders : e.holders.map (fun h => (wrap32 h.1, h.2 % 2 ^ 32)) = e.holders := by
    rw [map_congr_left (g := id) fun x hx => by
      rw [wrap32_eq (h.holders x hx).1, Nat.mod_eq_of_lt (h.holders x hx).2]
      rfl, map_id]
  rw [SavedName.asRead, cString_eq h.name.1, hholders]

theorem reads_nameP (hname : e.name.length < 2 ^ 32) (hlen : e.holders.length < 2 ^ 32) :
    Reads nameP e.asRead (swName e) := by
  have hholder (x : Int × Nat) : Reads holderP (wrap32 x.1, x.2 % 2 ^ 32) (swHolder x) :=
    (reads_i32P x.1).bind ((reads_u32P x.2).map _)
  have hcount := reads_countP _ swHolder hlen (fun x _ => hholder x) fun x _ => by simp [swHolder]
  exact ((reads_strP hname).pair hcount).map _

def SavedReply.asRead (now now' : Int) (r : SavedReply) : SavedReply where
  callee := wrap32 r.callee
  caller := wrap32 r.caller
  serial := r.serial % 2 ^ 32
  live := true
  deadline := now' + (r.left now % 2 ^ 32 : Nat)

theorem SavedReply.Storable.asRead_eq {r : SavedReply} (h : r.Storable now) (now' : Int) :
    r.asRead now now' = { r with live := true, deadline := now' + r.left now } := by
  simp only [SavedReply.asRead, wrap32_eq h.callee, wrap32_eq h.caller, Nat.mod_eq_of_lt h.serial,
    Nat.mod_eq_of_lt h.left]

theorem reads_replyP (now now' : Int) (r : SavedReply) : Reads (replyP now') (r.asRead now now') (swReply now r) :=
  (reads_i32P r.callee).bind ((reads_i32P r.caller).bind ((reads_u32P r.serial).bind ((reads_u32P (r.left now)).map _)))

structure BusState.Readable (s : BusState) : Prop where
  conns : ∀ c ∈ s.conns, c.Readable
  nconns : s.conns.length < 2 ^ 32
  names : ∀ e ∈ s.names.names, e.name.length < 2 ^ 32 ∧ e.holders.length < 2 ^ 32
  nnames : s.names.names.length < 2 ^ 32
  nreplies : (s.replies.filter SavedReply.live).length < 2 ^ 32

def BusState.asRead (now now' : Int) (s : BusState) : Snap :=
  (({ nextId := s.nextId % 2 ^ 32, nextUnique := s.names.nextUnique % 2 ^ 32, driverSerial := s.driverSerial % 2 ^ 32 },
      s.conns.length),
    s.conns.map (fun c => (c.asRead, c.pendingFds.length)), s.names.names.map SavedName.asRead,
    (s.replies.filter SavedReply.live).map (SavedReply.asRead now now'))

theorem reads_snapP (now now' : Int) (h : s.Readable) : Reads (snapP now') (s.asRead now now') (stateWrite now s) := by
  have hfront : Reads frontP
      (stateMagic, stateVersion, s.nextId % 2 ^ 32, s.names.nextUnique % 2 ^ 32,
        s.driverSerial % 2 ^ 32, s.conns.length)
      (swU32 stateMagic ++ ([] ++ (swU32 stateVersion ++ ([] ++ (swU32 s.nextId ++ (swU32 s.names.nextUnique ++
        (swU32 s.driverSerial ++ swU32 s.conns.length))))))) :=
    (reads_u32P_of_lt (by decide)).pair ((Reads.test (decide_eq_true rfl)).bind ((reads_u32P_of_lt (by decide)).pair
      ((Reads.test (decide_eq_true rfl)).bind ((reads_u32P s.nextId).pair ((reads_u32P s.names.nextUnique).pair
        ((reads_u32P s.driverSerial).pair (reads_u32P_of_lt h.nconns)))))))
  have hconns := Reads.times (fun c : SavedConn => (c.asRead, c.pendingFds.length)) fun c hc =>
    reads_connP (h.conns c hc)
  have hnames := reads_countP SavedName.asRead swName h.nnames
    (fun e he => reads_nameP (h.names e he).1 (h.names e he).2) fun e _ => by
      simp [swName]
      omega
  have hreplies := reads_countP (SavedReply.asRead now now') (swReply now) h.nreplies
    (fun r _ => reads_replyP now now' r) fun r _ => by simp [swReply]
  have hsnap : Reads (snapP now') (s.asRead now now') _ := (hfront.map _).pair (hconns.pair (hnames.pair hreplies))
  simpa [stateWrite] using hsnap

theorem BusState.Storable.readable (h : s.Storable now) : s.Readable where
  conns := fun c hc => (h.conns c hc).readable
  nconns := h.nconns
  names := fun e he => ⟨(h.names e he).name.2, (h.names e he).length⟩
  nnames := h.nnames
  nreplies := lt_of_le_of_lt (length_filter_le _ _) h.nreplies

/-- The live replies of a state, as they are at time `now'` of the next broker. -/
def liveReplies (now now' : Int) (replies : List SavedReply) : List SavedReply :=
  (replies.filter SavedReply.live).map fun r => { r with live := true, deadline := now' + r.left now }

def BusState.snap (now now' : Int) (s : BusState) : Snap :=
  (({ nextId := s.nextId, nextUnique := s.names.nextUnique, driverSerial := s.driverSerial }, s.conns.length),
    s.conns.map (fun c => (c.filed, c.pendingFds.length)), s.names.names, liveReplies now now' s.replies)

theorem BusState.Storable.asRead_eq (h : s.Storable now) (now' : Int) : s.asRead now now' = s.snap now now' := by
  have hconns : s.conns.map (fun c => (c.asRead, c.pendingFds.length)) =
      s.conns.map (fun c => (c.filed, c.pendingFds.length)) :=
    map_congr_left fun c hc => by rw [(h.conns c hc).asRead_eq]
  have hnames : s.names.names.map SavedName.asRead = s.names.names := by
    rw [map_congr_left (g := id) fun e he => (h.names e he).asRead_eq, map_id]
  have hreplies : (s.replies.filter SavedReply.live).map (SavedReply.asRead now now') =
    liveReplies now now' s.replies :=
    map_congr_left fun r hr => by
      obtain ⟨hmem, hlive⟩ := mem_filter.mp hr
      exact (h.replies r hmem hlive).asRead_eq now'
  rw [BusState.asRead, hconns, hnames, hreplies, Nat.mod_eq_of_lt h.nextId, Nat.mod_eq_of_lt h.nextUnique,
    Nat.mod_eq_of_lt h.driverSerial]
  rfl

/-! ## What the reader makes of it -/

/-- A connection as the next broker has it; `ren` gives its numbers for the descriptors. -/
def SavedConn.restored (ren : Int → Int) (c : SavedConn) : SavedConn :=
  { c.filed with fd := ren c.fd, pendingFds := c.pendingFds.map ren }

def uniquesOf (cs : List SavedConn) : List (Int × Bytes) :=
  cs.filterMap fun c => c.unique.map (c.id, ·)

theorem effConns_filed (ren : Int → Int) (cs : List SavedConn) (front : List Int) (b : Built)
    (done rest : List (Option SavedConn)) (hslots : b.slots = done ++ rest) (hbuilt : done.length = b.built)
    (hroom : cs.length ≤ rest.length) (hused : b.usedPfds = front.length) :
    effConns (front ++ (cs.flatMap SavedConn.pendingFds).map ren) (cs.map fun c => ren c.fd)
        (cs.map fun c => (c.filed, c.pendingFds.length)) b =
      some { b with
        slots := done ++ (cs.map (fun c => some (c.restored ren)) ++ rest.drop cs.length)
        built := b.built + cs.length
        usedPfds := front.length + (cs.flatMap SavedConn.pendingFds).length
        sn.uniques := b.sn.uniques ++ uniquesOf cs } := by
  induction cs generalizing front b done rest with
  | nil =>
    simp [effConns, uniquesOf, ← hslots, ← hused]
  | cons c cs ih =>
    obtain ⟨slot, rest, rfl⟩ : ∃ slot rest', rest = slot :: rest' := by
      cases rest with
      | nil => simp at hroom
      | cons slot rest' => exact ⟨slot, rest', rfl⟩
    have hpfds : front ++ ((c :: cs).flatMap SavedConn.pendingFds).map ren =
        (front ++ c.pendingFds.map ren) ++ (cs.flatMap SavedConn.pendingFds).map ren := by simp
    have hone : effConn (front ++ ((c :: cs).flatMap SavedConn.pendingFds).map ren) (ren c.fd)
        (c.filed, c.pendingFds.length) b =
        some { b with
          slots := (done ++ [some (c.restored ren)]) ++ rest
          built := b.built + 1
          usedPfds := (front ++ c.pendingFds.map ren).length
          sn.uniques := b.sn.uniques ++ uniquesOf [c] } := by
      have hfits : c.pendingFds.length ≤
          (front ++ ((c :: cs).flatMap SavedConn.pendingFds).map ren).length - b.usedPfds := by
        simp [hused]
      have hpending : ((front ++ ((c :: cs).flatMap SavedConn.pendingFds).map ren).drop b.usedPfds).take
          c.pendingFds.length = c.pendingFds.map ren := by
        rw [hused, drop_left, flatMap_cons, map_append, take_left' (length_map _)]
      have hset (x : Option SavedConn) : b.slots.set b.built x = (done ++ [x]) ++ rest := by
        rw [hslots, ← hbuilt, set_append_right _ _ (le_refl _)]
        simp
      simp only [effConn, if_pos hfits, hpending, hset]
      cases hu : c.unique with
      | none => simp [SavedConn.filed, SavedConn.restored, uniquesOf, hu, hused]
      | some u => simp [SavedConn.filed, SavedConn.restored, uniquesOf, hu, hused, SavedNames.addUnique]
    simp only [map_cons, effConns]
    rw [hone, Option.bind_some, hpfds]
    rw [ih (front ++ c.pendingFds.map ren) _ (done ++ [some (c.restored ren)]) rest rfl (by simp [hbuilt])
      (by simpa using hroom) rfl]
    simp only [Option.some.injEq, Built.mk.injEq, true_and]
    refine ⟨by simp, by simp; omega, by simp; omega, ?_, trivial⟩
    rw [uniquesOf, uniquesOf, uniquesOf, append_assoc, ← filterMap_append]
    rfl

theorem all_effHolder (name : Bytes) (hs : List (Int × Nat)) (b : Built) (front : List SavedName)
    (start : List (Int × Nat)) (hfront : name ∉ front.map SavedName.name)
    (hb : b.sn.names = front ++ [{ name := name, holders := start }]) :
    Flow.Mirrors.all (effHolder name) hs b =
      some { b with sn := { b.sn with names := front ++ [{ name := name, holders := start ++ hs }] } } := by
  induction hs generalizing b start with
  | nil => simp only [Flow.Mirrors.all, foldlM_nil, append_nil, ← hb]; rfl
  | cons h hs ih =>
    have hadd : b.sn.addHolder name h =
        { b.sn with names := front ++ [{ name := name, holders := start ++ [h] }] } := by
      simp only [SavedNames.addHolder, hb]
      have hother := KeyedList.update_of_not_mem
        (f := fun e : SavedName => { e with holders := e.holders ++ [h] }) hfront
      unfold KeyedList.update at hother ⊢
      rw [map_append, hother]
      simp
    have hrest := ih { b with sn := b.sn.addHolder name h } (start ++ [h]) (by rw [hadd])
    simp only [Flow.Mirrors.all] at hrest ⊢
    rw [foldlM_cons]
    simp only [effHolder, Option.bind_eq_bind, Option.bind_some]
    rw [show (fun (b : Built) a => some { b with sn := b.sn.addHolder name a }) = fun b a =>
      effHolder name a b from rfl,
      hrest, hadd]
    simp

theorem all_effName (es : List SavedName) (b : Built) (hnd : ((b.sn.names ++ es).map SavedName.name).Nodup) :
    Flow.Mirrors.all effName es b = some { b with sn.names := b.sn.names ++ es } := by
  induction es generalizing b with
  | nil => simp [Flow.Mirrors.all]
  | cons e es ih =>
    have hnew : e.name ∉ b.sn.names.map SavedName.name := by
      rw [map_append, map_cons] at hnd
      intro hin
      exact (nodup_append.mp hnd).2.2 _ hin e.name mem_cons_self rfl
    have hintern : b.sn.intern e.name = { b.sn with names := b.sn.names ++ [{ name := e.name, holders := [] }] } := by
      have hno : b.sn.names.any (fun x => x.name = e.name) = false := by
        rw [any_eq_false]
        intro x hx hxe
        exact hnew (mem_map.mpr ⟨x, hx, of_decide_eq_true hxe⟩)
      simp [SavedNames.intern, hno]
    have hone : effName e b = some { b with sn.names := b.sn.names ++ [e] } := by
      rw [effName, all_effHolder e.name e.holders _ b.sn.names [] hnew (by rw [hintern]), hintern]
      rfl
    have hrest := ih { b with sn.names := b.sn.names ++ [e] } (by simpa using hnd)
    simp only [Flow.Mirrors.all] at hrest ⊢
    rw [foldlM_cons, hone]
    simpa using hrest

theorem all_effReply (rs : List SavedReply) (b : Built) :
    Flow.Mirrors.all effReply rs b = some { b with rents := b.rents ++ rs } := by
  induction rs generalizing b with
  | nil => simp [Flow.Mirrors.all]
  | cons r rs ih =>
    have hrest := ih { b with rents := b.rents ++ [r] }
    simp only [Flow.Mirrors.all] at hrest ⊢
    rw [foldlM_cons]
    simpa [effReply] using hrest

/-! ## The round trip -/

theorem stateRead_of_snap (hsize : bytes.length ≤ stateMaxBytes) {names : SavedNames}
    (hnames : names.names = [] ∧ names.uniques = []) {x : Snap} {rest : Bytes}
    (hx : snapP now bytes = some (x, rest)) {connFds pfds : List Int} {hdr : StateHdr} {b : Built}
    (hb : effSnap maxconns connFds pfds x (Built.start hdr slots) = some b) (replies : List SavedReply) :
    ∃ reach, stateRead (some bytes) maxconns connFds pfds now hdr slots names replies =
      { rc := 0, nconns := connFds.length, hdr := b.hdr, slots := b.slots
        names := { b.sn with nextUnique := b.hdr.nextUnique }, replies := replies ++ b.rents, built := b.built
        closed := [], reach := reach } := by
  have hbody := mirrors_readBody maxconns connFds pfds now (Built.start hdr slots) bytes 0 (Nat.zero_le _)
  rw [drop_zero, hx] at hbody
  simp only [hb] at hbody
  obtain ⟨off, -, -, hgo⟩ := hbody
  have hempty : ¬ (names.names ≠ [] ∨ names.uniques ≠ []) := by simp [hnames]
  have hfits : ¬ bytes.length > stateMaxBytes := Nat.not_lt.mpr hsize
  refine ⟨(Cursor.good bytes off).reach, ?_⟩
  dsimp only [stateRead]
  rw [if_neg hfits, if_neg hempty, hgo]

theorem stateRead_of_no_snap (hx : snapP now bytes = none) (maxconns : Nat)
    (connFds pfds : List Int) (hdr : StateHdr) (slots : List (Option SavedConn)) (names : SavedNames)
    (replies : List SavedReply) :
    (stateRead (some bytes) maxconns connFds pfds now hdr slots names replies).rc < 0 := by
  have hbody := mirrors_readBody maxconns connFds pfds now (Built.start hdr slots) bytes 0 (Nat.zero_le _)
  rw [drop_zero, hx] at hbody
  obtain ⟨rc, s, hrc, hout⟩ := hbody
  have hneg : (-1 : Int) < 0 := by decide
  dsimp only [stateRead]
  split
  · exact hneg
  · split
    · exact hneg
    · rw [hout]
      exact hrc

theorem effSnap_snap (now' : Int) (h : s.Storable now) (ren : Int → Int)
    (hmax : s.conns.length ≤ maxconns) (hdr : StateHdr)
    (hslots : s.conns.length ≤ slots.length) :
    effSnap maxconns (s.conns.map fun c => ren c.fd) ((s.conns.flatMap SavedConn.pendingFds).map ren) (s.snap now now')
        (Built.start hdr slots) =
      some {
        hdr := { nextId := s.nextId, nextUnique := s.names.nextUnique, driverSerial := s.driverSerial }
        slots := s.conns.map (fun c => some (c.restored ren)) ++ slots.drop s.conns.length
        built := s.conns.length
        usedPfds := (s.conns.flatMap SavedConn.pendingFds).length
        sn := { names := s.names.names, uniques := uniquesOf s.conns, nextUnique := 1 }
        rents := liveReplies now now' s.replies } := by
  have hconns := effConns_filed ren s.conns [] { Built.start hdr slots with
      hdr := { nextId := s.nextId, nextUnique := s.names.nextUnique, driverSerial := s.driverSerial } }
    [] slots rfl rfl hslots rfl
  simp only [nil_append] at hconns
  have hhdr : effHdr maxconns (s.conns.map fun c => ren c.fd).length (s.snap now now').1 (Built.start hdr slots) =
      some { Built.start hdr slots with
        hdr := { nextId := s.nextId, nextUnique := s.names.nextUnique, driverSerial := s.driverSerial } } := by
    rw [effHdr, if_pos (by simpa [BusState.snap] using hmax)]
    rfl
  rw [effSnap, hhdr, Option.bind_some]
  simp only [BusState.snap]
  rw [hconns, Option.bind_some, all_effName _ _ (by simpa [Built.start, SavedNames.new] using h.distinct),
    Option.bind_some, all_effReply, Option.bind_some]
  simp [Built.start, SavedNames.new]

/-- A connection and what the next broker has of it: the same but for the numbers of its
descriptors, and rule sets that accept the same. -/
structure Resumes (ren : Int → Int) (c c' : SavedConn) : Prop where
  fd : c'.fd = ren c.fd
  id : c'.id = c.id
  flags : c'.authed = c.authed ∧ c'.authOk = c.authOk ∧ c'.saidHello = c.saidHello ∧
    c'.negotiatedFd = c.negotiatedFd ∧ c'.sawNul = c.sawNul
  creds : c'.uid = c.uid ∧ c'.gid = c.gid ∧ c'.pid = c.pid ∧ c'.gids = c.gids
  unique : c'.unique = c.unique
  inBuf : c'.inBuf = c.inBuf
  pendingFds : c'.pendingFds = c.pendingFds.map ren
  oq : c'.oq = c.oq
  isMonitor : c'.isMonitor = c.isMonitor
  signals : ∀ v, matchSignal (c'.rules.getD []) v = matchSignal (c.rules.getD []) v
  messages : ∀ v, matchMessage (c'.monRules.getD []) v = matchMessage (c.monRules.getD []) v

theorem getD_normRules (m : Option MatchSet) : (normRules m).getD [] = m.getD [] := by
  unfold normRules
  split
  case isTrue h => rw [h]; rfl
  · rfl

theorem resumes_restored (ren : Int → Int) (hoq : c.oq = []) : Resumes ren c (c.restored ren) where
  fd := rfl
  id := rfl
  flags := ⟨rfl, rfl, rfl, rfl, rfl⟩
  creds := ⟨rfl, rfl, rfl, rfl⟩
  unique := rfl
  inBuf := rfl
  pendingFds := rfl
  oq := hoq.symm
  isMonitor := rfl
  signals v := by rw [show (c.restored ren).rules = normRules c.rules from rfl, getD_normRules]
  messages v := by rw [show (c.restored ren).monRules = normRules c.monRules from rfl, getD_normRules]

theorem unique_uniquesOf (h : s.Storable now) (n : Nat) (id : Int) :
    SavedNames.unique { names := s.names.names, uniques := uniquesOf s.conns, nextUnique := n } id =
      s.names.unique id := by
  have hnd : ((uniquesOf s.conns).map Prod.fst).Nodup := by
    have hsub : ((uniquesOf s.conns).map Prod.fst).Sublist (s.conns.map SavedConn.id) := by
      have hids := h.ids
      induction s.conns with
      | nil => simp [uniquesOf]
      | cons c cs ih =>
        unfold uniquesOf at ih ⊢
        rw [filterMap_cons, map_cons]
        cases c.unique with
        | none => exact ih.cons _
        | some u => exact ih.cons_cons _
    exact hsub.nodup h.ids
  have hlook : KeyedList.lookup Prod.fst id (uniquesOf s.conns) = KeyedList.lookup Prod.fst id s.names.uniques :=
    KeyedList.lookup_perm h.uniques hnd
  exact congrArg (Option.map Prod.snd) hlook

/-- **A snapshot carries the bus over.**  Of the state of a broker whose queues are drained,
whose snapshot is at most 64 MiB, the next broker, given the same descriptors in order
(under the numbers `ren`) and an empty registry, gets back every connection, the whole
registry, and the live replies with the time they have left. -/
theorem snapshot_round_trip {now : Int} (now' : Int) {s : BusState} (h : s.Storable now)
    (hdrained : ∀ c ∈ s.conns, c.oq = []) (hsize : (stateWrite now s).length ≤ stateMaxBytes) (ren : Int → Int)
    (maxconns : Nat) (hmax : s.conns.length ≤ maxconns) (hdr : StateHdr) (slots : List (Option SavedConn))
    (hslots : maxconns ≤ slots.length) (names : SavedNames) (hnames : names.names = [] ∧ names.uniques = [])
    (replies : List SavedReply) :
    let r := stateRead (some (stateWrite now s)) maxconns (s.conns.map fun c => ren c.fd)
      ((s.conns.flatMap SavedConn.pendingFds).map ren) now' hdr slots names replies
    r.rc = 0 ∧ r.nconns = s.conns.length ∧
      r.hdr = { nextId := s.nextId, nextUnique := s.names.nextUnique, driverSerial := s.driverSerial } ∧
      (∃ cs, r.slots.take r.nconns = cs.map some ∧ List.Forall₂ (Resumes ren) s.conns cs) ∧
      r.names.names = s.names.names ∧ (∀ id, r.names.unique id = s.names.unique id) ∧
      r.names.nextUnique = s.names.nextUnique ∧
      r.replies = replies ++ (s.replies.filter SavedReply.live).map
        (fun e => { e with deadline := now' + max 0 (e.deadline - now) }) := by
  have hread : snapP now' (stateWrite now s) = some (s.snap now now', []) := by
    have := reads_snapP now now' h.readable []
    rw [h.asRead_eq] at this
    rwa [append_nil] at this
  obtain ⟨reach, hres⟩ := stateRead_of_snap hsize hnames hread
    (effSnap_snap now' h ren hmax hdr (le_trans hmax hslots)) replies
  simp only [hres]
  refine ⟨trivial, length_map _, trivial, ⟨s.conns.map (SavedConn.restored ren), ?_, ?_⟩, trivial,
    unique_uniquesOf h _, trivial, ?_⟩
  · rw [length_map, take_left' (length_map _), map_map]
    rfl
  · rw [forall₂_map_right_iff, forall₂_same]
    exact fun c hc => resumes_restored ren (hdrained c hc)
  · refine congrArg (replies ++ ·) (map_congr_left fun e he => ?_)
    have hlive := (mem_filter.mp he).2
    have hleft : ((e.left now : Nat) : Int) = max 0 (e.deadline - now) := by
      unfold SavedReply.left
      omega
    rw [hleft]
    simp [hlive]

/-- A bus of two connections, one with a rule, a waiting descriptor and half a message. -/
def smallBus : BusState where
  nextId := 3
  driverSerial := 7
  conns :=
    [{ SavedConn.blank 5 with
       id := 1, authed := true, authOk := true, saidHello := true, sawNul := true, uid := 1000, gid := 1000, pid := 42,
       gids := [1000, 10], unique := some (cstr ":1.1"), inBuf := [108, 1], pendingFds := [9],
       rules := (parseRule (cstr "member='Changed'")).map fun r => [r] },
     { SavedConn.blank 6 with id := 2, rules := some [] }]
  names :=
    { names := [{ name := cstr "org.a", holders := [(1, 4)] }], uniques := [(1, cstr ":1.1")], nextUnique := 2 }
  replies :=
    [{ callee := 1, caller := 2, serial := 3, live := true, deadline := 1500 },
     { callee := 1, caller := 2, serial := 4, live := false, deadline := 9000 }]

theorem smallBus_storable : smallBus.Storable 1000 where
  nextId := by decide
  nextUnique := by decide
  driverSerial := by decide
  conns := by decide +kernel
  nconns := by decide
  names := by decide +kernel
  nnames := by decide
  distinct := by decide
  replies := by decide +kernel
  nreplies := by decide
  ids := by decide
  uniques := by
    rw [show smallBus.names.uniques = smallBus.conns.filterMap fun c => c.unique.map (c.id, ·) from by decide +kernel]

theorem snapshot_round_trip_small :
    let r := stateRead (some (stateWrite 1000 smallBus)) 2 [15, 16] [19] 50
      { nextId := 0, nextUnique := 0, driverSerial := 0 }
      [none, none] SavedNames.new []
    r.rc = 0 ∧ r.nconns = 2 ∧ r.names.unique 1 = some (cstr ":1.1") ∧
      r.replies = [{ callee := 1, caller := 2, serial := 3, live := true, deadline := 550 }] := by
  have hsize : (stateWrite 1000 smallBus).length ≤ stateMaxBytes := by decide +kernel
  obtain ⟨hrc, hn, -, -, -, hu, -, hr⟩ := snapshot_round_trip 50 smallBus_storable (by decide +kernel) hsize
    (fun fd => fd + 10) 2 (by decide) { nextId := 0, nextUnique := 0, driverSerial := 0 } [none, none] (by decide)
    SavedNames.new ⟨rfl, rfl⟩ []
  exact ⟨hrc, hn, (hu 1).trans (by decide +kernel), hr.trans (by decide +kernel)⟩

/-! ## What every file leaves as it was -/

/-- The reading so far: the cursor is in the file, and of the caller's slots the first ones
hold connections without queued output, the others what they held. -/
structure Reading.Sound (buf : Bytes) (slots : List (Option SavedConn)) (s : Reading) : Prop where
  buf : s.cur.buf = buf
  within : s.cur.Within
  built : s.built ≤ slots.length
  slots : ∃ filled : List SavedConn, filled.length = s.built ∧ (∀ c ∈ filled, c.oq = []) ∧
    s.slots = filled.map some ++ slots.drop s.built

def Flow.Sat (fl : Flow) (P Q : Reading → Prop) : Prop :=
  match fl with
  | .go s => P s
  | .out rc s => rc < 0 ∧ Q s

variable {buf : Bytes} {slots : List (Option SavedConn)} {s : Reading}

theorem Flow.Sat.andThen {fl : Flow} {P' : Reading → Prop} (h : fl.Sat P Q)
    (hf : ∀ s, P s → (f s).Sat P' Q) : (fl.andThen f).Sat P' Q := by
  cases fl with
  | go s => exact hf s h
  | out rc s => exact h

theorem Flow.sat_loop (hf : ∀ s, P s → (f s).Sat P P) (n : Nat) (h : P s) : (Flow.loop f n s).Sat P P := by
  induction n generalizing s with
  | zero => exact h
  | succ n ih => exact (hf s h).andThen fun s hs => ih hs

section

variable (h : s.Sound buf slots)
include h

theorem Reading.Sound.read {α : Type} {f : Scanner UInt8 α} (hf : Tame f) :
    Reading.Sound buf slots { s with cur := (f s.cur).2 } where
  buf := (hf.buf _).trans h.buf
  within := hf.within _ h.within
  __ := h

theorem Reading.Sound.stored (hdr : StateHdr) (used : Nat) (sn : SavedNames) (rents : List SavedReply) :
    Reading.Sound buf slots { s with hdr := hdr, usedPfds := used, sn := sn, rents := rents } where
  __ := h

theorem Reading.Sound.setLast (hpos : 0 < s.built) (hc : c.oq = []) :
    Reading.Sound buf slots { s with slots := s.slots.set (s.built - 1) (some c) } where
  __ := h
  slots := by
    obtain ⟨filled, hlen, hoq, hslots⟩ := h.slots
    refine ⟨filled.set (s.built - 1) c, by simpa using hlen, ?_, ?_⟩
    · intro x hx
      rcases mem_or_eq_of_mem_set hx with hx | rfl
      · exact hoq x hx
      · exact hc
    · rw [hslots, set_append_left _ _ (by rw [length_map]; omega), map_set]

theorem Reading.Sound.take (hroom : s.built < slots.length) (hc : c.oq = []) :
    Reading.Sound buf slots { s with slots := s.slots.set s.built (some c), built := s.built + 1 } where
  __ := h
  built := hroom
  slots := by
    obtain ⟨filled, hlen, hoq, hslots⟩ := h.slots
    refine ⟨filled ++ [c], by simp [hlen], ?_, ?_⟩
    · intro x hx
      rcases mem_append.mp hx with hx | hx
      · exact hoq x hx
      · rw [mem_singleton.mp hx]
        exact hc
    · have hmap : (filled.map some).length = s.built := by rw [length_map, hlen]
      rw [hslots, set_append_right _ _ (le_of_eq hmap), hmap, Nat.sub_self, drop_eq_getElem_cons hroom, set_cons_zero]
      simp

end

theorem sat_out (h : Q s) : (Flow.out (-1) s).Sat P Q := ⟨by decide, h⟩

theorem sat_read {α : Type} {f : Scanner UInt8 α} {k : α → Reading → Flow} (h : s.Sound buf slots) (hf : Tame f)
    (hk : ∀ a s', s'.Sound buf slots → s'.built = s.built → (k a s').Sat P Q) : (s.read f k).Sat P Q :=
  hk _ _ (h.read hf) rfl

theorem sat_readHeader (maxconns nconnFds : Nat) (h : s.Sound buf slots) :
    (readHeader maxconns nconnFds s).Sat (fun s' => s'.Sound buf slots ∧ s'.built = s.built ∧ nconnFds ≤ maxconns)
      (Reading.Sound buf slots) := by
  have hu := follows_srU32.tame
  unfold readHeader
  refine sat_read h hu fun magic s1 h1 hb1 => ?_
  split
  · exact sat_out h1
  refine sat_read h1 hu fun version s2 h2 hb2 => ?_
  split
  · exact ⟨by split <;> decide, h2⟩
  refine sat_read h2 hu fun nextId s3 h3 hb3 => sat_read h3 hu fun nextUnique s4 h4 hb4 =>
    sat_read h4 hu fun driverSerial s5 h5 hb5 => ?_
  refine sat_read (h5.stored _ s5.usedPfds s5.sn s5.rents) hu fun nc s6 h6 hb6 => ?_
  split
  · exact sat_out h6
  case isFalse hcond =>
    refine ⟨h6, by rw [hb6, hb5, hb4, hb3, hb2, hb1], ?_⟩
    omega

theorem sat_readRest (pfds : List Int) (fd : Int) (head : ConnHead) (gids : List Int) (uq : Bytes)
    (h : s.Sound buf slots) (hpos : 0 < s.built) :
    (readRest pfds fd head gids uq s).Sat (fun s' => s'.Sound buf slots ∧ s'.built = s.built)
      (Reading.Sound buf slots) := by
  have hu := follows_srU32.tame
  unfold readRest
  refine sat_read (h.stored s.hdr s.usedPfds _ s.rents) hu fun inl s1 h1 hb1 => ?_
  split
  · exact sat_out h1
  refine sat_read h1 (Tame.get inl) fun content s2 h2 hb2 => sat_read h2 hu fun np s3 h3 hb3 => ?_
  split
  · exact sat_out h3
  refine sat_read (h3.stored s3.hdr _ s3.sn s3.rents) follows_srTail.tame fun t s4 h4 hb4 => ?_
  have hb : s4.built = s.built := by rw [hb4, hb3, hb2, hb1]
  split
  · exact sat_out h4
  · exact ⟨h4.setLast (by omega) rfl, hb⟩

theorem sat_readConn (pfds : List Int) (fd : Int) (h : s.Sound buf slots) (hroom : s.built < slots.length) :
    (readConn pfds fd s).Sat (fun s' => s'.Sound buf slots ∧ s'.built = s.built + 1) (Reading.Sound buf slots) := by
  unfold readConn readFields
  refine sat_read (h.take hroom rfl) follows_srConnHead.tame fun head s1 h1 hb1 => ?_
  split
  · exact sat_out h1
  refine sat_read h1 (follows_srIdentity head.ng).tame fun ident s2 h2 hb2 => ?_
  have hb : s2.built = s.built + 1 := by rw [hb2, hb1]
  split
  · exact sat_out h2
  · rw [← hb]
    exact sat_readRest pfds fd head _ _ h2 (by omega)

theorem sat_readConns (pfds fds : List Int) (h : s.Sound buf slots) (hroom : s.built + fds.length ≤ slots.length) :
    (readConns pfds fds s).Sat (Reading.Sound buf slots) (Reading.Sound buf slots) := by
  induction fds generalizing s with
  | nil => exact h
  | cons fd fds ih =>
    rw [length_cons] at hroom
    refine (sat_readConn pfds fd h (by omega)).andThen fun s1 ⟨h1, hb1⟩ => ih h1 (by omega)

theorem sat_readCount {k : Nat → Reading → Flow}
    (hk : ∀ n s, s.Sound buf slots → (k n s).Sat (Reading.Sound buf slots) (Reading.Sound buf slots))
    (h : s.Sound buf slots) : (readCount k s).Sat (Reading.Sound buf slots) (Reading.Sound buf slots) := by
  unfold readCount
  refine sat_read h follows_srU32.tame fun n s1 h1 _ => ?_
  split
  · exact sat_out h1
  · exact hk n s1 h1

theorem sat_readName (h : s.Sound buf slots) :
    (readName s).Sat (Reading.Sound buf slots) (Reading.Sound buf slots) := by
  unfold readName
  refine sat_read h tame_srStr fun nm s1 h1 _ => ?_
  cases nm with
  | none => exact sat_out h1
  | some nm =>
    refine sat_readCount (fun n s2 h2 => sat_loop (fun s3 h3 => ?_) n h2) (h1.stored s1.hdr s1.usedPfds _ s1.rents)
    unfold readHolder
    refine sat_read h3 follows_srHolder.tame fun holder s4 h4 _ => ?_
    split
    · exact sat_out h4
    · exact h4.stored s4.hdr s4.usedPfds _ s4.rents

theorem sat_readReply (now : Int) (h : s.Sound buf slots) :
    (readReply now s).Sat (Reading.Sound buf slots) (Reading.Sound buf slots) := by
  unfold readReply
  refine sat_read h (follows_srReply now).tame fun e s1 h1 _ => ?_
  split
  · exact sat_out h1
  · exact h1.stored s1.hdr s1.usedPfds s1.sn _

theorem sat_readBody (maxconns : Nat) (connFds pfds : List Int) (now : Int)
    (h : s.Sound buf slots) (hbuilt : s.built = 0)
    (hroom : maxconns ≤ slots.length) :
    (readBody maxconns connFds pfds now s).Sat (Reading.Sound buf slots) (Reading.Sound buf slots) := by
  refine (sat_readHeader maxconns connFds.length h).andThen fun s1 ⟨h1, hb1, hmax⟩ => ?_
  refine (sat_readConns pfds connFds h1 (by omega)).andThen fun s2 h2 => ?_
  refine (sat_readCount (fun n s hs => sat_loop (fun s hs => sat_readName hs) n hs) h2).andThen fun s3 h3 => ?_
  refine (sat_readCount (fun n s hs => sat_loop (fun s hs => sat_readReply now hs) n hs) h3).andThen fun s4 h4 => ?_
  unfold readEnd
  split
  · exact sat_out h4
  · exact h4

theorem stateDrop_of_sound (h : s.Sound buf slots) :
    stateDrop s.slots s.built = (List.replicate s.built none ++ slots.drop s.built, []) := by
  obtain ⟨filled, hlen, hoq, hslots⟩ := h.slots
  have hmap : (filled.map some).length = s.built := by rw [length_map, hlen]
  have hbuilt := h.built
  have hdrop : s.slots.drop s.built = slots.drop s.built := by rw [hslots, drop_left' hmap]
  have htake : s.slots.take s.built = filled.map some := by rw [hslots, take_left' hmap]
  have hmin : min s.built s.slots.length = s.built := by
    rw [hslots, length_append, hmap]
    omega
  unfold stateDrop
  rw [hdrop, htake, hmin]
  refine Prod.ext rfl ?_
  rw [flatMap_eq_nil_iff]
  intro x hx
  obtain ⟨c, hc, rfl⟩ := mem_map.mp hx
  simp [hoq c hc]

/-- **A refused snapshot changes nothing.**  Whatever the file holds, either it is accepted,
or the reader fails and leaves the registry, the replies and the number of connections
alone, empties the slots it had filled, and closes no descriptor; and it reads only inside
the file.  A strict prefix of a snapshot is always refused. -/
theorem snapshot_refused_cleanly (file : Option Bytes) (maxconns : Nat) (connFds pfds : List Int) (now' : Int)
    (hdr : StateHdr) (slots : List (Option SavedConn)) (hslots : maxconns ≤ slots.length) (names : SavedNames)
    (replies : List SavedReply) :
    let r := stateRead file maxconns connFds pfds now' hdr slots names replies
    (r.rc = 0 ∨ r.rc < 0 ∧ r.names = names ∧ r.replies = replies ∧ r.nconns = 0 ∧ r.closed = [] ∧
      r.slots = List.replicate r.built none ++ slots.drop r.built) ∧
    (∀ bytes, file = some bytes → r.reach ≤ bytes.length) ∧
    (∀ now (s : BusState), s.Storable now → ∀ bytes, bytes <+: stateWrite now s → bytes ≠ stateWrite now s →
      file = some bytes → r.rc < 0) := by
  have hneg : (-1 : Int) < 0 := by decide
  -- the two early refusals, and the files that cannot be read at all
  have hearly : ∀ r : ReadResult, r = .refused hdr slots names replies →
      (r.rc = 0 ∨ r.rc < 0 ∧ r.names = names ∧ r.replies = replies ∧ r.nconns = 0 ∧ r.closed = [] ∧
        r.slots = List.replicate r.built none ++ slots.drop r.built) ∧
        (∀ bytes, file = some bytes → r.reach ≤ bytes.length) := by
    rintro r rfl
    exact ⟨.inr ⟨hneg, rfl, rfl, rfl, rfl, rfl⟩, fun _ _ => Nat.zero_le _⟩
  refine and_assoc.mp ⟨?_, ?_⟩
  · cases file with
    | none => exact hearly _ rfl
    | some bytes =>
      dsimp only [stateRead]
      split
      · exact hearly _ rfl
      split
      · exact hearly _ rfl
      have hstart : Reading.Sound bytes slots ⟨Built.start hdr slots, Cursor.good bytes 0⟩ :=
        { buf := rfl, within := Cursor.within_good (Nat.zero_le _), built := Nat.zero_le _
          slots := ⟨[], rfl, by simp, rfl⟩ }
      have hbody := sat_readBody maxconns connFds pfds now' hstart rfl hslots
      cases hflow : readBody maxconns connFds pfds now' ⟨Built.start hdr slots, Cursor.good bytes 0⟩ with
      | go s =>
        rw [hflow] at hbody
        refine ⟨.inl rfl, ?_⟩
        rintro _ ⟨⟩
        exact hbody.buf ▸ hbody.within.reach
      | out rc s =>
        rw [hflow] at hbody
        obtain ⟨hrc, hsound⟩ := hbody
        dsimp only
        rw [stateDrop_of_sound hsound]
        refine ⟨.inr ⟨hrc, rfl, rfl, rfl, rfl, rfl⟩, ?_⟩
        rintro _ ⟨⟩
        exact hsound.buf ▸ hsound.within.reach
  · rintro now s hs bytes hpre hne rfl
    exact stateRead_of_no_snap ((reads_snapP now now' hs.readable).not_accepts
      (stable_snapP now') hpre hne) maxconns connFds pfds hdr
      slots names replies

theorem snapshot_refused_cleanly_cut : (2 : Nat) ≤ 2 ∧
      (stateRead (some ((stateWrite 1000 smallBus).take 60)) 2 [15, 16] [19] 50
        { nextId := 0, nextUnique := 0, driverSerial := 0 } [none, none] SavedNames.new []).rc < 0 := by
  refine ⟨by decide, ?_⟩
  refine (snapshot_refused_cleanly (some ((stateWrite 1000 smallBus).take 60)) 2 [15, 16] [19] 50
    { nextId := 0, nextUnique := 0, driverSerial := 0 } [none, none] (by decide) SavedNames.new []).2.2
    1000 smallBus smallBus_storable _ (List.take_prefix _ _) ?_ rfl
  decide +kernel

end SchemaInit.Dbus
