/-
# `SchemaInit.Dbus.Restart` — how much bus fits through a restart

On `SIGTERM` the broker writes its state to a file, and the next one reads it.
The writer (`sdbus_state_write`) has no limit; the reader (`sdbus_state_read`)
refuses a file of more than 64 MiB before it looks at it, and then
`resume_from_fds` closes every connection.

`Broker.handoverSize` is the length of the file in terms of the broker: who is
connected, with which groups, rules and buffered input, the names and the
pending replies.  It is the only thing that can go wrong:

    (b.resume now now' ren hdr).rc = 0 ↔ b.handoverSize ≤ stateMaxBytes

for every state `b` of every run.  From right to left the reader's own checks
have to hold, which is `SchemaInit.Dbus.Cargo`.

No cap of the broker bounds the size.  A connection may have almost 16 MiB of a
message buffered and a user 256 connections; five clients that have each sent
13 MiB of a message that is not complete are enough (`five_clients_lose_bus`).
-/
import SchemaInit.Dbus.Cargo
import SchemaInit.Dbus.Parse

namespace SchemaInit.Dbus

open Option
open List (length_append length_map map_cons replicate sum_cons)

variable {n : Nat} {c : Conn} {b : Broker} {chunk : Bytes} {f g : Conn → Conn}

open Scan Broker KeyedList

/-! ## What `store_and_exit` hands over -/

def ReqFlags.word (f : ReqFlags) : Nat :=
  (if f.allowReplacement then 1 else 0) + (if f.replaceExisting then 2 else 0) + (if f.doNotQueue then 4 else 0)

def Conn.saved (c : Conn) : SavedConn where
  fd := c.fd
  id := c.id
  authed := c.authed
  authOk := c.authOk
  saidHello := c.saidHello
  negotiatedFd := c.negotiatedFd
  sawNul := c.sawNul
  uid := c.creds.uid
  gid := c.creds.gid
  pid := c.creds.pid
  gids := c.creds.gids
  unique := c.unique
  inBuf := c.inBuf
  pendingFds := c.pendingFds
  oq := c.oq
  isMonitor := c.isMonitor
  rules := c.rules
  monRules := c.monRules

def NameEnt.saved (e : NameEnt) : SavedName where
  name := e.name
  holders := e.holders.map fun h => ((h.connId : Int), h.flags.word)

def ReplyEnt.saved (r : ReplyEnt) : SavedReply where
  callee := r.callee
  caller := r.caller
  serial := r.serial
  live := r.live
  deadline := r.deadline

/-- The arguments of `sdbus_state_write`; the serial in the header is `g_bcast_serial`. -/
def Broker.saved (b : Broker) : BusState where
  nextId := b.nextId
  driverSerial := b.bcastSerial
  conns := b.conns.map Conn.saved
  names :=
    { names := b.names.names.map NameEnt.saved
      uniques := b.names.uniques.map fun u => ((u.connId : Int), u.unique)
      nextUnique := b.names.nextUnique }
  replies := b.replies.map ReplyEnt.saved

/-- The next broker reads what this one stored; `ren` gives its numbers for the descriptors,
and `hdr` is what is on its stack.  Its registry and its reply table are new. -/
def Broker.resume (b : Broker) (now now' : Int) (ren : Int → Int) (hdr : StateHdr) : ReadResult :=
  stateRead (some (stateWrite now b.saved)) b.conns.length (b.conns.map fun c => ren c.fd)
    ((b.conns.flatMap Conn.pendingFds).map ren) now' hdr (replicate (b.conns.length + 1) none) SavedNames.new []

/-! ## Its size -/

def rulesSize (m : Option MatchSet) : Nat :=
  4 + ((m.getD []).map fun r => 4 + r.raw.length).sum

/-- The bytes a connection takes: nine words, its groups, its unique name, its input and
its rules. -/
def Conn.handoverSize (c : Conn) : Nat :=
  40 + 4 * c.creds.gids.length + (c.unique.getD []).length + c.inBuf.length + (rulesSize c.rules + rulesSize c.monRules)

def NameEnt.handoverSize (e : NameEnt) : Nat :=
  8 + e.name.length + 8 * e.holders.length

def Broker.handoverSize (b : Broker) : Nat :=
  32 + (b.conns.map Conn.handoverSize).sum + (b.names.names.map NameEnt.handoverSize).sum +
    16 * (b.replies.filter ReplyEnt.live).length

theorem length_swMatches (m : Option MatchSet) : (swMatches m).length = rulesSize m := by
  simp [swMatches, rulesSize]

theorem length_flatMap_const {α : Type} {f : α → Bytes} (hf : ∀ a, (f a).length = n) (l : List α) :
    (l.flatMap f).length = n * l.length := by
  simp [hf, Nat.mul_comm]

theorem length_swConn (c : Conn) : (swConn c.saved).length = c.handoverSize := by
  simp only [swConn, length_append, length_swU32, length_swI32, length_flatMap_const length_swI32, swStr,
    length_swBlob, length_swMatches, Conn.handoverSize, Conn.saved]
  omega

theorem length_swName (e : NameEnt) : (swName e.saved).length = e.handoverSize := by
  have hholder (h : Int × Nat) : (swHolder h).length = 8 := rfl
  simp only [swName, length_append, length_swU32, length_flatMap_const hholder, length_swBlob, NameEnt.handoverSize,
    NameEnt.saved, length_map]
  omega

theorem filter_live_saved (replies : Replies) :
    (replies.map ReplyEnt.saved).filter SavedReply.live = (replies.filter ReplyEnt.live).map ReplyEnt.saved := by
  rw [List.filter_map]
  rfl

theorem length_stateWrite (now : Int) (b : Broker) : (stateWrite now b.saved).length = b.handoverSize := by
  have hreply (r : SavedReply) : (swReply now r).length = 16 := rfl
  have hconns : (b.saved.conns.flatMap swConn).length = (b.conns.map Conn.handoverSize).sum := by
    simp [saved, List.flatMap_map, length_swConn]
  have hnames : (b.saved.names.names.flatMap swName).length = (b.names.names.map NameEnt.handoverSize).sum := by
    simp [saved, List.flatMap_map, length_swName]
  have hlive : b.saved.replies.filter SavedReply.live = (b.replies.filter ReplyEnt.live).map ReplyEnt.saved :=
    filter_live_saved b.replies
  simp only [stateWrite, length_append, length_swU32, hconns, hnames, hlive, length_flatMap_const hreply,
    length_map, handoverSize]
  omega

/-! ## What fits is read -/

theorem length_le_sum_map {α : Type} {f : α → Nat} {l : List α} (h : ∀ a, 1 ≤ f a) : l.length ≤ (l.map f).sum := by
  have hlen := List.length_le_sum_of_one_le (l.map f) fun i hi => by
    obtain ⟨a, -, rfl⟩ := List.mem_map.mp hi
    exact h a
  rwa [length_map] at hlen

theorem rulesStored_of_size {m : Option MatchSet} (h : RulesParse (m.getD [])) (hsize : rulesSize m < 2 ^ 32) :
    RulesStored m where
  rules := by
    intro r hr
    have hle := le_sum (fun r : MatchRule => 4 + r.raw.length) hr
    unfold rulesSize at hsize
    exact ⟨(h r hr).1, (h r hr).2, by omega⟩
  length := by
    have hle := length_le_sum_map (f := fun r : MatchRule => 4 + r.raw.length) (l := m.getD []) fun r => by omega
    unfold rulesSize at hsize
    omega

theorem Conn.Carried.readable (h : c.Carried) (hsize : c.handoverSize ≤ stateMaxBytes) :
    c.saved.Readable := by
  have hmax : stateMaxBytes < 2 ^ 31 := by decide
  unfold Conn.handoverSize at hsize
  have hrules : rulesSize c.rules < 2 ^ 32 ∧ rulesSize c.monRules < 2 ^ 32 := by omega
  exact
    { gids := h.gids
      unique := by
        show (c.unique.getD []).length < _
        omega
      inBuf := by
        show c.inBuf.length ≤ _
        unfold intMax
        omega
      pendingFds := h.pendingFds
      rules := rulesStored_of_size h.rules hrules.1
      monRules := rulesStored_of_size h.monRules hrules.2 }

theorem Broker.Carried.readable (h : b.Carried) (hsize : b.handoverSize ≤ stateMaxBytes) :
    b.saved.Readable := by
  have hmax : stateMaxBytes < 2 ^ 31 := by decide
  have hconn (c : Conn) (hc : c ∈ b.conns) : c.handoverSize ≤ (b.conns.map Conn.handoverSize).sum := le_sum _ hc
  have hname (e : NameEnt) (he : e ∈ b.names.names) :
      e.handoverSize ≤ (b.names.names.map NameEnt.handoverSize).sum := le_sum _ he
  have hconns : b.conns.length ≤ (b.conns.map Conn.handoverSize).sum := length_le_sum_map fun c => by
    unfold Conn.handoverSize
    omega
  have hnames : b.names.names.length ≤ (b.names.names.map NameEnt.handoverSize).sum := length_le_sum_map fun e => by
    unfold NameEnt.handoverSize
    omega
  unfold handoverSize at hsize
  constructor
  · intro s hs
    obtain ⟨c, hc, rfl⟩ := List.mem_map.mp hs
    have hle := hconn c hc
    exact (h c hc).readable (by omega)
  · simp only [saved, length_map]
    omega
  · intro s hs
    obtain ⟨e, he, rfl⟩ := List.mem_map.mp hs
    have hle := hname e he
    have hsizes : e.handoverSize = 8 + e.name.length + 8 * e.holders.length := rfl
    simp only [NameEnt.saved, length_map]
    omega
  · simp only [saved, length_map]
    omega
  · have hlive : b.saved.replies.filter SavedReply.live = (b.replies.filter ReplyEnt.live).map ReplyEnt.saved :=
      filter_live_saved b.replies
    rw [hlive, length_map]
    omega

/-! ## What is read is accepted -/

theorem effConns_accepts (pfds fds : List Int) (xs : List (SavedConn × Nat)) (b : Built) (hlen : xs.length = fds.length)
    (hroom : b.usedPfds + (xs.map Prod.snd).sum ≤ pfds.length) :
    ∃ b', effConns pfds fds xs b = some b' ∧ b'.usedPfds = b.usedPfds + (xs.map Prod.snd).sum := by
  induction xs generalizing fds b with
  | nil =>
    refine ⟨b, ?_, by simp⟩
    cases fds <;> rfl
  | cons x xs ih =>
    cases fds with
    | nil => simp at hlen
    | cons fd fds =>
      rw [map_cons, sum_cons] at hroom
      have hfits : x.2 ≤ pfds.length - b.usedPfds := by omega
      obtain ⟨b₁, hb₁, hused₁⟩ : ∃ b₁, effConn pfds fd x b = some b₁ ∧ b₁.usedPfds = b.usedPfds + x.2 :=
        ⟨_, if_pos hfits, rfl⟩
      obtain ⟨b', hb', hused⟩ := ih fds b₁ (by simpa using hlen) (by omega)
      refine ⟨b', ?_, ?_⟩
      · rw [effConns, hb₁, bind_some, hb']
      · rw [hused, hused₁, map_cons, sum_cons]
        omega

theorem all_accepts {α : Type} {f : α → Built → Option Built}
    (hf : ∀ x b, ∃ b', f x b = some b' ∧ b'.usedPfds = b.usedPfds) (xs : List α) (b : Built) :
    ∃ b', Flow.Mirrors.all f xs b = some b' ∧ b'.usedPfds = b.usedPfds := by
  induction xs generalizing b with
  | nil => exact ⟨b, rfl, rfl⟩
  | cons x xs ih =>
    obtain ⟨b₁, hb₁, hused₁⟩ := hf x b
    obtain ⟨b₂, hb₂, hused₂⟩ := ih b₁
    refine ⟨b₂, ?_, hused₂.trans hused₁⟩
    simp only [Flow.Mirrors.all] at hb₂ ⊢
    rw [List.foldlM_cons, hb₁]
    exact hb₂

theorem effSnap_accepts {maxconns : Nat} {connFds pfds : List Int} {x : Snap} (b : Built) (hmax : x.1.2 ≤ maxconns)
    (hcount : x.1.2 = connFds.length) (hlen : x.2.1.length = connFds.length) (hnone : b.usedPfds = 0)
    (hpfds : (x.2.1.map Prod.snd).sum = pfds.length) : ∃ b', effSnap maxconns connFds pfds x b = some b' := by
  obtain ⟨b₁, hb₁, hused₁⟩ := effConns_accepts pfds connFds x.2.1 { b with hdr := x.1.1 } hlen (by
    dsimp only
    omega)
  have hname (e : SavedName) (b : Built) : ∃ b', effName e b = some b' ∧ b'.usedPfds = b.usedPfds :=
    all_accepts (f := effHolder e.name) (fun h b => ⟨_, rfl, rfl⟩) e.holders { b with sn := b.sn.intern e.name }
  obtain ⟨b₂, hb₂, hused₂⟩ := all_accepts hname x.2.2.1 b₁
  obtain ⟨b₃, hb₃, hused₃⟩ := all_accepts (f := effReply) (fun r b => ⟨_, rfl, rfl⟩) x.2.2.2 b₂
  have hall : b₃.usedPfds = pfds.length := by
    rw [hused₃, hused₂, hused₁, hpfds]
    exact (congrArg (· + pfds.length) hnone).trans (Nat.zero_add _)
  refine ⟨b₃, ?_⟩
  rw [effSnap, effHdr, if_pos ⟨hmax, hcount⟩, bind_some, hb₁, bind_some, hb₂, bind_some, hb₃, bind_some, if_pos hall]

theorem resume_accepts (h : b.Carried) (hsize : b.handoverSize ≤ stateMaxBytes) (now now' : Int)
    (ren : Int → Int) (hdr : StateHdr) : (b.resume now now' ren hdr).rc = 0 := by
  have hread := reads_snapP now now' (h.readable hsize) []
  rw [List.append_nil] at hread
  have hpfds : ((b.saved.asRead now now').2.1.map Prod.snd).sum =
      ((b.conns.flatMap Conn.pendingFds).map ren).length := by
    simp only [BusState.asRead, saved, List.map_map, length_map, List.length_flatMap]
    rfl
  have hcount : (b.saved.asRead now now').1.2 = (b.conns.map fun c => ren c.fd).length := by
    simp [BusState.asRead, saved]
  have hlength : (b.saved.asRead now now').2.1.length = (b.conns.map fun c => ren c.fd).length := by
    simp [BusState.asRead, saved]
  have hmax : (b.saved.asRead now now').1.2 ≤ b.conns.length := le_of_eq (hcount.trans (length_map _))
  obtain ⟨built, hbuilt⟩ := effSnap_accepts (Built.start hdr (replicate (b.conns.length + 1) none)) hmax hcount
    hlength rfl hpfds
  have hlen : (stateWrite now b.saved).length ≤ stateMaxBytes := by rwa [length_stateWrite]
  obtain ⟨reach, hres⟩ := stateRead_of_snap hlen
    (show SavedNames.new.names = [] ∧ SavedNames.new.uniques = [] from ⟨rfl, rfl⟩) hread hbuilt []
  rw [Broker.resume, hres]

theorem stateRead_of_long {bytes : Bytes} (h : bytes.length > stateMaxBytes) (maxconns : Nat) (connFds pfds : List Int)
    (now : Int) (hdr : StateHdr) (slots : List (Option SavedConn)) (names : SavedNames) (replies : List SavedReply) :
    (stateRead (some bytes) maxconns connFds pfds now hdr slots names replies).rc = -1 := by
  dsimp only [stateRead]
  rw [if_pos h]
  rfl

theorem resume_refuses (hsize : stateMaxBytes < b.handoverSize) (now now' : Int) (ren : Int → Int)
    (hdr : StateHdr) : (b.resume now now' ren hdr).rc = -1 := by
  have hlong : (stateWrite now b.saved).length > stateMaxBytes := by rwa [length_stateWrite]
  exact stateRead_of_long hlong ..

/-! ## Five clients -/

def quietEnv : Env :=
  { stubEnv with lib := { stubLib with demarshal := fun _ => none } }

def Event.isQuiet : Event → Bool
  | .accept creds => creds.gids = []
  | _ => true

theorem proper_of_isQuiet {e : Event} (h : e.isQuiet = true) : Input.Proper ⟨quietEnv, e⟩ where
  strings := fun _ _ hcall => (nomatch hcall)
  gids := by
    rintro creds rfl
    have hnil : creds.gids = [] := of_decide_eq_true h
    rw [hnil]
    exact Nat.zero_le _

def Broker.after (b : Broker) (es : List Event) : Broker :=
  (es.map (Input.mk quietEnv)).foldl step b

theorem Broker.after_append (b : Broker) (es es' : List Event) : b.after (es ++ es') = (b.after es).after es' := by
  simp [after]

theorem reaches_after (k : Config) {es : List Event} (h : es.all Event.isQuiet = true) :
    Run.Reaches step (fun _ i => i.Proper) (start k) ((start k).after es) := by
  refine Run.AllOk.reaches ?_
  generalize start k = b
  induction es generalizing b with
  | nil => trivial
  | cons e es ih =>
    rw [List.all_cons, Bool.and_eq_true] at h
    exact ⟨proper_of_isQuiet h.1, ih h.2 _⟩

def entry (id : ConnId) : List Event :=
  [.accept ⟨1000, 1000, 1, []⟩, .receive id ([0] ++ cstr "AUTH EXTERNAL 31303030\r\nBEGIN\r\n") 0,
    .writable id [.sent 65536]]

def longHeader : Bytes :=
  [ch 'l', 1, 0, 1, 0, 0, 0, 4, 1, 0, 0, 0, 0, 0, 0, 0]

structure LongChunk (chunk : Bytes) : Prop where
  length : chunk.length = 65536
  header : ∃ rest, chunk = longHeader ++ rest

-- The chunk is kept a variable: none of what follows looks at its 64 KiB.
theorem exists_longChunk : ∃ chunk, LongChunk chunk := by
  refine ⟨longHeader ++ replicate 65520 0, ?_, _, rfl⟩
  rw [length_append, List.length_replicate]
  rfl

def feed (chunk : Bytes) (n : Nat) (id : ConnId) : List Event :=
  (replicate n [Event.receive id chunk 0, .deliver id]).flatten

def bulk (chunk : Bytes) (n : Nat) : Bytes :=
  (replicate n chunk).flatten

def Conn.fed (chunk : Bytes) (n : Nat) (c : Conn) : Conn :=
  { c with inBuf := c.inBuf ++ bulk chunk n }

theorem all_isQuiet_feed (chunk : Bytes) (n : Nat) (id : ConnId) : (feed chunk n id).all Event.isQuiet = true := by
  simp [feed, Event.isQuiet]

theorem LongChunk.length_bulk (h : LongChunk chunk) (n : Nat) : (bulk chunk n).length = n * 65536 := by
  simp [bulk, h.length]

theorem bulk_succ (chunk : Bytes) (n : Nat) : bulk chunk (n + 1) = bulk chunk n ++ chunk := by
  rw [bulk, List.replicate_succ', List.flatten_append, List.flatten_singleton]
  rfl

theorem incomplete_long (rest : Bytes) (h : rest.length < 2 ^ 26) :
    sdbusWireParse (longHeader ++ rest) = .incomplete := by
  have hgood : GoodStart longHeader ∧ (fixedHeader longHeader).totalLen = 16 + 2 ^ 26 := by decide
  have hlen : longHeader.length = 16 := by decide
  rw [sdbusWireParse_incomplete_iff, goodStart_append _ _ (by omega), fixedHeader_append _ _ (by omega), hgood.2,
    length_append, hlen]
  exact .inr ⟨hgood.1, Nat.add_lt_add_left h 16⟩

theorem LongChunk.incomplete_bulk (h : LongChunk chunk)
    (hroom : (n + 1) * 65536 ≤ maxConnPending) : sdbusWireParse (bulk chunk (n + 1)) = .incomplete := by
  obtain ⟨rest, hrest⟩ := h.header
  have hsplit : bulk chunk (n + 1) = longHeader ++ (rest ++ bulk chunk n) := by
    rw [bulk, List.replicate_succ, List.flatten_cons, ← List.append_assoc, ← hrest]
    rfl
  have hmax : maxConnPending < 2 ^ 26 := by decide
  have hlen := h.length_bulk (n + 1)
  rw [hsplit] at hlen ⊢
  refine incomplete_long _ ?_
  rw [length_append] at hlen
  omega

theorem takeFds_zero (b : Broker) (c : Conn) : b.takeFds c 0 = b := by
  simp [takeFds, openFds, modConn, update, closeFds]

theorem LongChunk.step (h : LongChunk chunk) {id : ConnId}
    (hdrain : b.draining = false) (hc : b.conn? id = some c) (hauthed : c.authed = true) (hover : c.inOver = false)
    (hbuf : c.inBuf = bulk chunk n) (hroom : (n + 1) * 65536 ≤ maxConnPending) :
    Dbus.step (Dbus.step b ⟨quietEnv, .receive id chunk 0⟩) ⟨quietEnv, .deliver id⟩ =
      b.modConn id (fun c => c.inAppend chunk) := by
  have happend : c.inAppend chunk = { c with inBuf := bulk chunk (n + 1) } := by
    have hfits : ¬ c.inBuf.length + chunk.length > maxConnPending := by
      rw [hbuf, h.length_bulk, h.length]
      omega
    rw [Conn.inAppend, if_neg hfits, hbuf, bulk_succ]
  have hreceive : Dbus.step b ⟨quietEnv, .receive id chunk 0⟩ = b.modConn id (fun c => c.inAppend chunk) := by
    have htake : chunk.take 65536 = chunk := List.take_of_length_le (le_of_eq h.length)
    have hnot : ¬ (c.inAppend chunk).inOver = true := by
      rw [happend]
      simp [hover]
    simp [Dbus.step, hdrain, receive, hc, takeFds_zero, htake, takeBytes, hauthed, if_neg hnot]
  have hid (d : Conn) : (d.inAppend chunk).id = d.id := by
    unfold Conn.inAppend
    split <;> rfl
  have hc' : (b.modConn id (fun c => c.inAppend chunk)).conn? id = some { c with inBuf := bulk chunk (n + 1) } := by
    rw [← happend]
    exact lookup_update_self hid hc
  rw [hreceive]
  simp [Dbus.step, deliver, hc', hauthed, h.incomplete_bulk hroom]

theorem id_fed (chunk : Bytes) (n : Nat) (c : Conn) : (c.fed chunk n).id = c.id := rfl

structure Conn.Idle (c : Conn) : Prop where
  authed : c.authed = true
  inOver : c.inOver = false
  inBuf : c.inBuf = []

theorem Broker.modConn_modConn (b : Broker) (id : ConnId) (hf : ∀ c, (f c).id = c.id) :
    (b.modConn id f).modConn id g = b.modConn id (fun c => g (f c)) := by
  simp only [modConn, update, List.map_map]
  congr 1
  apply List.map_congr_left
  intro c _
  by_cases hid : c.id = id
  · simp [hid, hf]
  · simp [hid]

theorem Broker.modConn_congr (hd : b.ids.Nodup) {id : ConnId} (hc : b.conn? id = some c)
    (h : f c = g c) : b.modConn id f = b.modConn id g := by
  unfold modConn
  rw [update_congr hd hc h]

theorem LongChunk.after_feed (h : LongChunk chunk) (hdrain : b.draining = false) (hd : b.ids.Nodup) {id : ConnId}
    (hc : b.conn? id = some c) (hidle : c.Idle) (hroom : n * 65536 ≤ maxConnPending) :
    b.after (feed chunk n id) = b.modConn id (Conn.fed chunk n) := by
  induction n with
  | zero =>
    have hzero : c.fed chunk 0 = c := by simp [Conn.fed, bulk]
    rw [modConn_congr hd hc (g := fun c => c) hzero]
    simp [after, feed, modConn, update]
  | succ n ih =>
    have hfed : (b.modConn id (Conn.fed chunk n)).conn? id = some (c.fed chunk n) :=
      lookup_update_self (id_fed chunk n) hc
    have hbuf : (c.fed chunk n).inBuf = bulk chunk n := by
      rw [Conn.fed, hidle.inBuf]
      rfl
    have hone := h.step (b := b.modConn id (Conn.fed chunk n)) hdrain hfed hidle.authed hidle.inOver hbuf hroom
    have hfeed : feed chunk (n + 1) id = feed chunk n id ++ [.receive id chunk 0, .deliver id] := by
      rw [feed, List.replicate_succ', List.flatten_append, List.flatten_singleton]
      rfl
    have happend : (c.fed chunk n).inAppend chunk = c.fed chunk (n + 1) := by
      have hfits : ¬ (c.fed chunk n).inBuf.length + chunk.length > maxConnPending := by
        rw [hbuf, h.length_bulk, h.length]
        omega
      rw [Conn.inAppend, if_neg hfits, hbuf, ← bulk_succ, Conn.fed, Conn.fed, hidle.inBuf]
      rfl
    have hless : n * 65536 ≤ maxConnPending := le_trans (Nat.mul_le_mul_right _ (Nat.le_succ n)) hroom
    rw [hfeed, after_append, ih hless]
    refine hone.trans ?_
    rw [modConn_modConn b id (id_fed chunk n)]
    exact modConn_congr hd hc happend

theorem LongChunk.after_feedAll (h : LongChunk chunk) (hroom : n * 65536 ≤ maxConnPending)
    (ids : List ConnId) (hids : ids.Nodup)
    (hdrain : b.draining = false) (hd : b.ids.Nodup) (hidle : ∀ id ∈ ids, ∃ c, b.conn? id = some c ∧ c.Idle) :
    b.after (ids.flatMap (feed chunk n)) =
      { b with conns := b.conns.map fun c => if c.id ∈ ids then c.fed chunk n else c } := by
  induction ids generalizing b with
  | nil => simp [after]
  | cons id ids ih =>
    obtain ⟨hnot, hids⟩ := List.nodup_cons.mp hids
    obtain ⟨c, hc, hci⟩ := hidle id List.mem_cons_self
    have hd' : (b.modConn id (Conn.fed chunk n)).ids.Nodup := by
      have hsame : (b.modConn id (Conn.fed chunk n)).ids = b.ids := map_update (id_fed chunk n)
      rwa [hsame]
    have hrest := ih hids (b := b.modConn id (Conn.fed chunk n)) hdrain hd' fun x hx => by
      obtain ⟨d, hxd, hdi⟩ := hidle x (List.mem_cons_of_mem _ hx)
      refine ⟨d, ?_, hdi⟩
      have hne : x ≠ id := by
        rintro rfl
        exact hnot hx
      exact (lookup_update_of_ne (id_fed chunk n) hne).trans hxd
    rw [List.flatMap_cons, after_append, h.after_feed hdrain hd hc hci hroom, hrest]
    simp only [modConn, update, List.map_map]
    congr 1
    apply List.map_congr_left
    intro d _
    by_cases hdid : d.id = id
    · simp [hdid, id_fed, hnot]
    · simp [hdid]

def fiveEntries : List Event :=
  [1, 2, 3, 4, 5].flatMap entry

def fiveRun (chunk : Bytes) : List Event :=
  fiveEntries ++ ([1, 2, 3, 4, 5].flatMap (feed chunk 205) ++ [.terminate])

theorem all_isQuiet_fiveRun (chunk : Bytes) : (fiveRun chunk).all Event.isQuiet = true := by
  have hentries : fiveEntries.all Event.isQuiet = true := by decide
  have hfeed : ([1, 2, 3, 4, 5].flatMap (feed chunk 205)).all Event.isQuiet = true := by
    rw [List.all_flatMap]
    exact List.all_eq_true.mpr fun id _ => all_isQuiet_feed chunk 205 id
  rw [fiveRun, List.all_append, List.all_append, hentries, hfeed]
  rfl

theorem five_idle : ((start stubConfig).after fiveEntries).draining = false ∧
      ((start stubConfig).after fiveEntries).conns.map Conn.id = [1, 2, 3, 4, 5] ∧
      ∀ c ∈ ((start stubConfig).after fiveEntries).conns,
        c.authed = true ∧ c.inOver = false ∧ c.inBuf = [] ∧ c.oq = [] := by
  decide +kernel

theorem length_mul_le_sum {α : Type} {f : α → Nat} {m : Nat} {l : List α} (h : ∀ a ∈ l, m ≤ f a) :
    l.length * m ≤ (l.map f).sum := by
  induction l with
  | nil => simp
  | cons a l ih =>
    have ha := h a List.mem_cons_self
    have hrest := ih fun x hx => h x (List.mem_cons_of_mem _ hx)
    rw [map_cons, sum_cons, List.length_cons, Nat.succ_mul]
    omega

/-- Five clients of one user, each within its limits, and the bus is lost. -/
theorem five_clients_lose_bus :
    ∃ b, Run.Reaches step (fun _ i => i.Proper) (start stubConfig) b ∧ b.draining = true ∧ b.conns.length = 5 ∧
      (∀ c ∈ b.conns, c.oq = [] ∧ c.inBuf.length ≤ maxConnPending) ∧
      ∀ now now' ren hdr, (b.resume now now' ren hdr).rc = -1 := by
  obtain ⟨chunk, hchunk⟩ := exists_longChunk
  have hroom : 205 * 65536 ≤ maxConnPending := by decide
  obtain ⟨hdrain, hids, hidle⟩ := five_idle
  refine ⟨(start stubConfig).after (fiveRun chunk), reaches_after stubConfig (all_isQuiet_fiveRun chunk), ?_⟩
  rw [fiveRun, after_append, after_append]
  generalize (start stubConfig).after fiveEntries = b₀ at *
  have hd : b₀.ids.Nodup := by
    show (b₀.conns.map Conn.id).Nodup
    rw [hids]
    decide
  have hfed := hchunk.after_feedAll hroom [1, 2, 3, 4, 5] (by decide) hdrain hd fun id hid => by
    have hin : id ∈ b₀.conns.map Conn.id := by rwa [hids]
    obtain ⟨c, hc⟩ := exists_lookup hin
    obtain ⟨hauthed, hover, hbuf, -⟩ := hidle c (mem_of_lookup hc)
    exact ⟨c, hc, hauthed, hover, hbuf⟩
  rw [hfed]
  have hconns : b₀.conns.map (fun c => if c.id ∈ [1, 2, 3, 4, 5] then c.fed chunk 205 else c) =
    b₀.conns.map (Conn.fed chunk 205) :=
    List.map_congr_left fun c hc => if_pos (hids ▸ List.mem_map_of_mem hc)
  have hlength : b₀.conns.length = 5 := by
    have hlen := congrArg List.length hids
    rwa [length_map] at hlen
  have hinput (c : Conn) (hc : c ∈ b₀.conns) : (c.fed chunk 205).inBuf.length = 205 * 65536 := by
    obtain ⟨-, -, hbuf, -⟩ := hidle c hc
    rw [Conn.fed, hbuf, List.nil_append, hchunk.length_bulk]
  rw [hconns]
  refine ⟨rfl, ?_, ?_, ?_⟩
  · show (b₀.conns.map (Conn.fed chunk 205)).length = 5
    rw [length_map, hlength]
  · intro c hc
    obtain ⟨d, hmem, rfl⟩ := List.mem_map.mp (show c ∈ b₀.conns.map (Conn.fed chunk 205) from hc)
    exact ⟨(hidle d hmem).2.2.2, le_of_eq_of_le (hinput d hmem) hroom⟩
  · intro now now' ren hdr
    refine resume_refuses ?_ now now' ren hdr
    have hsum := length_mul_le_sum (f := Conn.handoverSize) (m := 205 * 65536) (l := b₀.conns.map (Conn.fed chunk 205))
      fun c hc => by
        obtain ⟨d, hmem, rfl⟩ := List.mem_map.mp hc
        have hin := hinput d hmem
        unfold Conn.handoverSize
        omega
    rw [length_map, hlength] at hsum
    have hmax : stateMaxBytes < 5 * (205 * 65536) := by decide
    refine lt_of_lt_of_le (lt_of_lt_of_le hmax hsum) ?_
    show _ ≤ 32 + ((b₀.conns.map (Conn.fed chunk 205)).map Conn.handoverSize).sum + _ + _
    omega

/-- **A restart keeps the bus exactly when it fits.** -/
theorem restart_keeps_bus_iff {k : Config} {b : Broker}
    (h : Run.Reaches step (fun _ i => i.Proper) (start k) b) (now now' : Int) (ren : Int → Int)
    (hdr : StateHdr) : (b.resume now now' ren hdr).rc = 0 ↔ b.handoverSize ≤ stateMaxBytes := by
  constructor
  · intro hrc
    by_contra hsize
    rw [resume_refuses (Nat.not_le.mp hsize)] at hrc
    exact absurd hrc (by decide)
  · intro hsize
    exact resume_accepts (carried_of_reaches h) hsize now now' ren hdr

/-- Two clients fit. -/
theorem restart_keeps_bus_two : let b := (start stubConfig).after (entry 1 ++ entry 2)
    Run.Reaches step (fun _ i => i.Proper) (start stubConfig) b ∧ b.conns.length = 2 ∧
      (b.resume 0 0 id ⟨0, 0, 0⟩).rc = 0 := by
  have hquiet : (entry 1 ++ entry 2).all Event.isQuiet = true := by decide
  have hrun := reaches_after stubConfig hquiet
  exact ⟨hrun, by decide +kernel, (restart_keeps_bus_iff hrun 0 0 id ⟨0, 0, 0⟩).mpr (by decide +kernel)⟩

end SchemaInit.Dbus
