/-
# `SchemaInit.Dbus.Talk` — what sending does to the broker

Most of what the broker does is to send: answers, errors, signals, copies for
monitors.  All of it comes down to a few primitive changes: a serial is taken,
bytes are queued to a connection, descriptors are duplicated and queued, the
scratch buffer of a connection changes, a report to PID 1 is kept.  `Talk` is the
closure of these, and every sending function is shown to be a `Talk` once.  An
invariant is then checked against the primitives, not against the functions.
-/
import SchemaInit.Dbus.System

namespace SchemaInit.Dbus

open Conn

namespace Broker

variable (env : Env) (b : Broker) (k : OwnerChange) (id : ConnId) (kind : OutKind) (replySerial : Nat) (bytes : Bytes)
    (fds : List Int) (skip : Option ConnId) (call : DriverCall) (args : List Arg) (name text : Bytes)

inductive Talk1 : Broker → Broker → Prop
  | serial (b : Broker) (s d : Nat) : Talk1 b { b with bcastSerial := s, driverSerial := d }
  | enqueue (b : Broker) (id : ConnId) (bytes : Bytes) : Talk1 b (b.enqueue id bytes [])
  | copy (b : Broker) (id : ConnId) (bytes : Bytes) (fds : List Int) (c : Conn) (hc : b.conn? id = some c)
      (hfds : fds.length ≤ maxPendingFds) :
      Talk1 b ((b.dupFds fds).1.enqueue id bytes ((b.dupFds fds).2.filter (0 ≤ ·)))
  | out (b : Broker) (id : ConnId) (g : Conn → Bytes) : Talk1 b (b.modConn id (fun c => { c with out := g c }))
  | reports (b : Broker) (rs : List (Bytes × Int)) : Talk1 b { b with reports := rs }
  | socket (b : Broker) (h : b.reportFd = none) :
      Talk1 b (if b.openFd.2 < 0 then b.openFd.1 else { b.openFd.1 with reportFd := some b.openFd.2 })

def Talk : Broker → Broker → Prop := Relation.ReflTransGen Talk1

theorem Talk.trans {b b' b'' : Broker} (h : Talk b b') (h' : Talk b' b'') : Talk b b'' :=
  Relation.ReflTransGen.trans h h'

theorem Talk1.talk {b b' : Broker} (h : Talk1 b b') : Talk b b' := Relation.ReflTransGen.single h

theorem Talk.foldl {α : Type} {f : Broker → α → Broker} (h : ∀ b x, Talk b (f b x)) (b : Broker) (l : List α) :
    Talk b (l.foldl f b) :=
  l.foldlRecOn f .refl fun u hu x _ => hu.trans (h u x)

/-! ## Copies for monitors -/

theorem talk_monitorCopyTo (view : MatchView) (id : ConnId) : Talk b (b.monitorCopyTo bytes fds skip view id) := by
  unfold monitorCopyTo
  split
  · exact .refl
  case h_2 c hc =>
    split
    · exact .refl
    · split
      · exact .refl
      · split
        · exact .refl
        · exact (Talk1.copy b id bytes _ c hc (List.length_take_le _ _)).talk

theorem talk_monitorCopyFrom (fuel : Nat) : Talk b (b.monitorCopyFrom bytes fds skip fuel) := by
  induction fuel generalizing b bytes fds with
  | zero => exact .refl
  | succ fuel ih =>
    unfold monitorCopyFrom
    split
    · exact .refl
    · split
      · exact (Talk.foldl (fun b id => talk_monitorCopyTo b _ fds skip _ id) b _).trans (ih ..)
      · exact .refl

theorem talk_monitorCopy : Talk b (b.monitorCopy bytes fds skip) := by
  unfold monitorCopy
  split
  · exact .refl
  · exact talk_monitorCopyFrom b bytes fds skip _

theorem talk_monitorInbound (c : Conn) (w : WireMsg) (raw : Bytes) (nfds : Nat) :
    Talk b (b.monitorInbound c w raw nfds) := by
  unfold monitorInbound
  split
  · exact talk_monitorCopy b ..
  · exact talk_monitorCopy b ..

/-! ## The driver's own messages -/

theorem talk_nextSerial : Talk b b.nextSerial :=
  (Talk1.serial b _ b.driverSerial).talk

theorem talk_enqueue : Talk b (b.enqueue id bytes []) :=
  (Talk1.enqueue b id bytes).talk

theorem talk_enqueueSignal (member : Bytes) (args : List Arg) : Talk b (b.enqueueSignal env id member args) := by
  unfold enqueueSignal
  refine (talk_nextSerial b).trans ?_
  dsimp only
  split
  · exact .refl
  case h_2 bytes _ =>
    refine (talk_enqueue _ id bytes).trans ?_
    split
    · exact .refl
    · exact talk_monitorCopy ..

theorem talk_enqueueReply : Talk b (b.enqueueReply env id kind replySerial args).1 := by
  unfold enqueueReply
  refine (talk_nextSerial b).trans ?_
  dsimp only
  split
  · exact .refl
  · exact talk_enqueue _ id _

theorem talk_synthWire : Talk b (b.synthWire env id kind replySerial args) := by
  have hreply := talk_enqueueReply env b id kind replySerial args
  unfold synthWire
  split
  case h_1 b' hb' => rwa [hb'] at hreply
  case h_2 b' bytes hb' =>
    rw [hb'] at hreply
    refine hreply.trans ?_
    split
    · exact .refl
    · exact talk_monitorCopy ..

theorem talk_synthErrorWire : Talk b (b.synthErrorWire env id replySerial name text) :=
  talk_synthWire env b id _ replySerial _

theorem talk_sendNoReplyTo (b : Broker) (call : ConnId × Nat) : Talk b (b.sendNoReplyTo env text call) := by
  unfold sendNoReplyTo
  split
  · exact .refl
  · exact talk_synthErrorWire env b ..

theorem removeConn_of_none (h : b.conn? id = none) : b.removeConn env id = b := by
  simp [removeConn, h]

/-- Before a connection is freed its names go, those who wait for it are told, and its calls are forgotten. -/
theorem removeConn_steps {c : Conn} (hc : b.conn? id = some c) :
    ∃ n b₁, Talk (dropNames env { b with nmonitors := n } id) b₁ ∧
      b.removeConn env id =
        let b₂ := { b₁ with replies := repliesPurge b₁.replies id }
        match b₂.conn? id with
        | none => b₂
        | some c => b₂.freeConn c := by
  unfold removeConn
  rw [hc]
  dsimp only
  cases c.isMonitor with
  | false => exact ⟨b.nmonitors, _, .foldl (talk_sendNoReplyTo env _) _ _, rfl⟩
  | true => exact ⟨b.nmonitors - 1, _, .foldl (talk_sendNoReplyTo env _) _ _, rfl⟩

theorem talk_drainScratch : Talk b (b.drainScratch id) := by
  unfold drainScratch
  split
  · exact .refl
  case h_2 c hc =>
    split
    · exact .refl
    · refine .trans ?_ ((talk_enqueue _ id c.out).trans (Talk1.out _ id (fun _ => [])).talk)
      split
      · exact talk_monitorCopy b ..
      · exact .refl

theorem talk_driverEmit (kind : OutKind) (args : List Arg) : Talk b (b.driverEmit env id call kind args) := by
  unfold driverEmit
  refine .trans (Talk1.serial b b.bcastSerial ((b.driverSerial + 1) % 2 ^ 32)).talk ?_
  dsimp only
  split
  · exact .refl
  case h_2 bytes _ => exact (Talk1.out _ id (fun c => c.out ++ bytes)).talk

/-! ## Reports and announcements -/

theorem talk_reportSend (pid : Int) : Talk b (b.reportSend env name pid).1 := by
  unfold reportSend
  split
  · exact .refl
  case h_2 hfd =>
    have hsocket := (Talk1.socket b hfd).talk
    dsimp only
    split
    case isTrue hneg => rwa [if_pos hneg] at hsocket
    case isFalse hneg => rwa [if_neg hneg] at hsocket

theorem talk_reportNameToPid1 (pid : Int) : Talk b (b.reportNameToPid1 env name pid) := by
  unfold reportNameToPid1
  split
  · exact .refl
  · have hsend : Talk b (if b.reports = [] then b.reportSend env name pid else (b, false)).1 := by
      split
      · exact talk_reportSend env b name pid
      · exact .refl
    generalize (if b.reports = [] then b.reportSend env name pid else (b, false)) = sent at hsend ⊢
    dsimp only
    split
    · exact hsend
    · exact hsend.trans (Talk1.reports _ _).talk

theorem talk_reportFlush : Talk b (b.reportFlush env) := by
  unfold reportFlush
  generalize b.reports = rs
  induction rs generalizing b with
  | nil => exact (Talk1.reports b []).talk
  | cons r rs ih =>
    have hsend := talk_reportSend env b r.1 r.2
    unfold flushReports
    split
    case h_1 b' hb' =>
      rw [hb'] at hsend
      exact hsend.trans (ih b')
    case h_2 b' hb' =>
      rw [hb'] at hsend
      exact hsend.trans (Talk1.reports b' _).talk

theorem talk_monitorNameOwnerChanged : Talk b (b.monitorNameOwnerChanged env k) := by
  unfold monitorNameOwnerChanged
  split
  · exact .refl
  · refine (talk_nextSerial b).trans ?_
    dsimp only
    split
    · exact .refl
    · exact talk_monitorCopy ..

theorem talk_tellOwnerChanged (dying : Option ConnId) (b : Broker) (id : ConnId) :
    Talk b (tellOwnerChanged env k dying b id) := by
  unfold tellOwnerChanged
  split
  · exact .refl
  · split
    · exact .refl
    · split
      · exact .refl
      · exact talk_enqueueSignal env b id _ _

theorem talk_announce (dying : Option ConnId) :
    Talk { b with ownerLog := b.ownerLog ++ [k] } (b.announce env k dying) :=
  (talk_monitorNameOwnerChanged env _ k).trans (Talk.foldl (talk_tellOwnerChanged env k dying) _ _)

theorem talk_nameLost (o : Option ConnId) : Talk b (b.nameLost env name o) := by
  unfold nameLost
  split
  · exact .refl
  · split
    · exact .refl
    · exact talk_enqueueSignal env b ..

theorem talk_reloadReply (ws : List Waiter) (err : Option Bytes) : Talk b (b.reloadReply env ws err) := by
  refine Talk.foldl (fun b w => ?_) b ws
  unfold reloadReplyOne
  split
  · exact .refl
  · split
    · exact talk_synthErrorWire env b ..
    · exact talk_synthWire env b ..

/-! ## Driver methods that only answer -/

theorem talk_reply : Talk b (b.reply env id call args) :=
  talk_driverEmit env b id call _ args

theorem talk_replyError : Talk b (b.replyError env id call name text) :=
  talk_driverEmit env b id call _ _

theorem talk_invalidArgs (text : String) : Talk b (b.invalidArgs env id call text) :=
  talk_replyError env b id call _ _

theorem talk_driverProperties (member : Bytes) : Talk b (b.driverProperties env id call member).1 := by
  unfold driverProperties
  dsimp only
  split
  · split
    · exact talk_reply env b ..
    · exact talk_invalidArgs env b ..
  · split
    · split
      · split
        · exact talk_replyError env b ..
        · split
          · exact talk_replyError env b ..
          · exact talk_reply env b ..
      · exact talk_invalidArgs env b ..
    · exact .refl

theorem talk_getNameOwner : Talk b (b.getNameOwner env id call name) := by
  unfold getNameOwner
  split
  · exact talk_reply env b ..
  · split
    · exact talk_replyError env b ..
    · exact talk_reply env b ..

theorem talk_listQueuedOwners : Talk b (b.listQueuedOwners env id call name) := by
  unfold listQueuedOwners
  split
  · exact talk_reply env b ..
  · split
    · split
      · exact talk_replyError env b ..
      · exact talk_reply env b ..
    · split
      · exact talk_replyError env b ..
      · exact talk_reply env b ..

theorem talk_ownerCall (answer : Conn → Arg) : Talk b (b.ownerCall env id call answer) := by
  unfold ownerCall
  split
  · split
    · exact talk_replyError env b ..
    · exact talk_reply env b ..
  · exact talk_invalidArgs env b ..

/-- What a call to the driver can do: it only sends, or it is one of the five methods that change
the table of names or the rules. -/
theorem driverDispatch_rule {b : Broker} {c : Conn} {call : DriverCall} {P : Broker → Prop}
    (talk : ∀ b', Talk b b' → P b') (hello : P (b.hello env c.id call))
    (request : call.member = some (cstr "RequestName") → ∀ name flags, P (b.requestName env c call name flags))
    (release : ∀ name, P (b.releaseName env c call name))
    (add : call.member = some (cstr "AddMatch") → ∀ rule, .str rule ∈ call.args → P (b.addMatch env c call rule))
    (remove : ∀ rule, P (b.removeMatch env c call rule)) : P (b.driverDispatch env c call).1 := by
  have hreply := fun args => talk _ (talk_reply env b c.id call args)
  have hname : ∀ text (f : Bytes → Broker), (∀ name, .str name ∈ call.args → P (f name)) →
      P (b.withName env c.id call text f) := by
    intro text f hf
    unfold withName
    split
    case h_1 hargs => exact hf _ (hargs ▸ List.mem_cons_self)
    · exact talk _ (talk_invalidArgs env b ..)
  have howner := fun answer => talk _ (talk_ownerCall env b c.id call answer)
  unfold driverDispatch
  split
  · exact talk _ .refl
  case h_2 member hmember =>
    split
    · exact hreply _
    · split
      · exact talk _ (talk_driverProperties env b ..)
      · split
        · exact talk _ .refl
        case h_2 m hm =>
          rw [Member.text_of_ofBytes hm] at hmember
          cases m with
          | ping => exact hreply _
          | getMachineId => exact hreply _
          | getId => exact hreply _
          | hello => exact hello
          | requestName =>
            simp only [driverMember]
            split
            · exact request hmember _ _
            · exact talk _ (talk_invalidArgs env b ..)
          | releaseName => exact hname _ _ fun name _ => release name
          | nameHasOwner => exact hname _ _ fun _ _ => hreply _
          | getNameOwner => exact hname _ _ fun _ _ => talk _ (talk_getNameOwner env b ..)
          | listNames => exact hreply _
          | listActivatableNames => exact hreply _
          | listQueuedOwners => exact hname _ _ fun _ _ => talk _ (talk_listQueuedOwners env b ..)
          | addMatch => exact hname _ _ (add hmember)
          | removeMatch => exact hname _ _ fun rule _ => remove rule
          | getConnectionUnixUser => exact howner _
          | getConnectionUnixProcessID => exact howner _
          | getConnectionCredentials => exact howner _

theorem talk_monitorAnswer (c : Conn) (w : WireMsg) (raw : Bytes) : Talk b (b.monitorAnswer env c w raw).1 := by
  unfold monitorAnswer
  split
  · exact talk_synthErrorWire env b ..
  · split
    · exact talk_replyError env b ..
    · exact talk_reply env b ..

theorem talk_ownNameLost : Talk b (b.ownNameLost env id) := by
  unfold ownNameLost
  split
  · exact .refl
  · exact talk_enqueueSignal env b ..

/-! ## What talk leaves alone -/

end Broker

def Conn.face (c : Conn) : Conn :=
  { c with
    inBuf := []
    inOver := false
    out := []
    pendingFds := []
    oq := []
    oqBytes := 0
    oqOver := false }

theorem Conn.id_face (c : Conn) : c.face.id = c.id := rfl

theorem Conn.face_enqueue (c : Conn) (bytes : Bytes) (fds : List Int) : (c.enqueue bytes fds).face = c.face := by
  unfold enqueue
  split <;> rfl

theorem Conn.flush_out (answers : List SendResult) (c : Conn) (closed : List Int) :
    ∃ oq n, (c.flush answers closed).1 = { c with oq := oq, oqBytes := n } := by
  induction answers generalizing c closed with
  | nil =>
    unfold flush
    cases c.oq with
    | nil => exact ⟨_, _, rfl⟩
    | cons chunk rest => exact ⟨_, _, rfl⟩
  | cons a answers ih =>
    unfold flush
    cases c.oq with
    | nil => exact ⟨_, _, rfl⟩
    | cons chunk rest =>
      cases a with
      | again => exact ⟨_, _, rfl⟩
      | broken => exact ⟨_, _, rfl⟩
      | sent n =>
        dsimp only
        split
        · exact ih _ _
        · exact ⟨_, _, rfl⟩

theorem Conn.face_flush (answers : List SendResult) (c : Conn) (closed : List Int) :
    (c.flush answers closed).1.face = c.face := by
  obtain ⟨oq, n, heq⟩ := flush_out answers c closed
  rw [heq]
  rfl

namespace Broker

variable (b : Broker) (fds : List Int) (id : ConnId)

/-- Nothing changed but buffers, queues, serials, reports and the descriptor table. -/
structure Steady (b b' : Broker) : Prop where
  names : b'.names = b.names
  faces : b'.conns.map Conn.face = b.conns.map Conn.face
  nextId : b'.nextId = b.nextId
  nmonitors : b'.nmonitors = b.nmonitors
  policy : b'.policy = b.policy
  svctab : b'.svctab = b.svctab
  acts : b'.acts = b.acts
  replies : b'.replies = b.replies
  systemBus : b'.systemBus = b.systemBus
  draining : b'.draining = b.draining
  reload : b'.reload = b.reload
  ownerLog : b'.ownerLog = b.ownerLog
  copies : b'.copies = b.copies

theorem Steady.refl : Steady b b := by
  constructor <;> rfl

theorem Steady.trans {b b' b'' : Broker} (h : Steady b b') (h' : Steady b' b'') : Steady b b'' where
  names := h'.names.trans h.names
  faces := h'.faces.trans h.faces
  nextId := h'.nextId.trans h.nextId
  nmonitors := h'.nmonitors.trans h.nmonitors
  policy := h'.policy.trans h.policy
  svctab := h'.svctab.trans h.svctab
  acts := h'.acts.trans h.acts
  replies := h'.replies.trans h.replies
  systemBus := h'.systemBus.trans h.systemBus
  draining := h'.draining.trans h.draining
  reload := h'.reload.trans h.reload
  ownerLog := h'.ownerLog.trans h.ownerLog
  copies := h'.copies.trans h.copies

theorem Steady.foldl {α : Type} {f : Broker → α → Broker} (h : ∀ b x, Steady b (f b x)) (b : Broker) (l : List α) :
    Steady b (l.foldl f b) :=
  l.foldlRecOn f (.refl b) fun u hu x _ => hu.trans (h u x)

def ids (b : Broker) : List ConnId :=
  b.conns.map Conn.id

theorem lookup_face (l : List Conn) :
    KeyedList.lookup Conn.id id (l.map Conn.face) = (KeyedList.lookup Conn.id id l).map Conn.face := by
  simp only [KeyedList.lookup, List.find?_map]
  rfl

theorem steady_modConn {f : Conn → Conn} (hf : ∀ c, (f c).face = c.face) : Steady b (b.modConn id f) := by
  constructor
  case faces => exact KeyedList.map_update hf
  all_goals rfl

theorem steady_table (t : FdTable Nat) (n : Nat) (bad : List Int) :
    Steady b { b with table := t, nextFile := n, badCloses := bad } := by
  constructor <;> rfl

theorem steady_closeFd (fd : Int) : Steady b (b.closeFd fd) := by
  unfold closeFd
  split
  · exact Steady.refl b
  · split
    · exact steady_table b _ b.nextFile b.badCloses
    · exact steady_table b b.table b.nextFile _

theorem steady_closeFds : Steady b (b.closeFds fds) :=
  Steady.foldl steady_closeFd b fds

theorem steady_allocFd (file : Nat) : Steady b (b.allocFd file).1 := by
  unfold allocFd
  split
  · exact Steady.refl b
  · exact steady_table b _ b.nextFile b.badCloses

theorem steady_openFd : Steady b b.openFd.1 :=
  (steady_table b b.table _ b.badCloses).trans (steady_allocFd _ _)

theorem steady_dupFd (fd : Int) : Steady b (b.dupFd fd).1 := by
  unfold dupFd
  split
  · exact Steady.refl b
  · exact steady_allocFd b _

theorem steady_dupFds : Steady b (b.dupFds fds).1 := by
  induction fds generalizing b with
  | nil => exact Steady.refl b
  | cons fd fds ih => exact (steady_dupFd b fd).trans (ih _)

theorem steady_enqueue (bytes : Bytes) (fds : List Int) : Steady b (b.enqueue id bytes fds) := by
  have hmod := steady_modConn b id (fun c => c.face_enqueue bytes fds)
  unfold enqueue
  split
  · exact Steady.refl b
  · split
    · exact hmod.trans (steady_closeFds _ _)
    · exact hmod

theorem Talk1.steady {b b' : Broker} (h : Talk1 b b') : Steady b b' := by
  cases h with
  | serial s d => constructor <;> rfl
  | enqueue id bytes => exact steady_enqueue b id bytes []
  | copy id bytes fds c hc hfds => exact (steady_dupFds b fds).trans (steady_enqueue _ id bytes _)
  | out id g => exact steady_modConn b id (fun _ => rfl)
  | reports rs => constructor <;> rfl
  | socket hfd =>
    have hopen := steady_openFd b
    split
    · exact hopen
    · exact hopen.trans (by constructor <;> rfl)

theorem Talk.steady {b b' : Broker} (h : Talk b b') : Steady b b' := by
  induction h with
  | refl => exact Steady.refl b
  | tail _ hstep ih => exact ih.trans hstep.steady

end Broker

end SchemaInit.Dbus
