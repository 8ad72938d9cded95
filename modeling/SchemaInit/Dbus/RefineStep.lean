/-
# `SchemaInit.Dbus.RefineStep` — every step of the broker is one move of the bus

The second half of the refinement: the branches of `handle_message`, the arrival
and the removal of a connection, and with them `step`.  `Drops` and `Asks` say of
a state and an input which connection gives up its names and which one asks for a
name; a step makes no other such move.
-/
import SchemaInit.Dbus.Refine

namespace SchemaInit.Dbus

open Bus Broker Conn List KeyedList

variable {b b' b'' : Broker} {c c' : Conn} {env : Env} {w : WireMsg} {raw : Bytes} {i : Input}

namespace Broker

/-! ## The driver -/

section Causes

variable {turns : Prop} (env : Env)

theorem causes_driverDispatch (hid : c.id ∈ b.bus.ids) (call : DriverCall) :
    Causes b (b.driverDispatch env c call).1 c (call.member = some (cstr "RequestName"))
      (call.member = some (cstr "AddMatch")) turns :=
  driverDispatch_rule (P := (Causes b · c _ _ turns)) env (fun _ h => .stay h.steady.bus)
    ⟨_, moves_hello env hid call, .hello⟩
    (fun hmember => causes_requestName env hid hmember call) (causes_releaseName env hid call)
    (fun hmember rule _ => causes_addMatch env hid hmember call rule) (causes_removeMatch env hid call)

end Causes

/-! ## What a message may cause -/

def MonitorCall (env : Env) (c : Conn) (w : WireMsg) (raw : Bytes) : Prop :=
  toDriver w = true ∧ w.member = some (cstr "BecomeMonitor") ∧
    ∃ call ∈ env.lib.demarshal raw, (monitorRequest env c call).isOk = true

def NameCall (env : Env) (w : WireMsg) (raw : Bytes) : Prop :=
  toDriver w = true ∧ ∃ call ∈ env.lib.demarshal raw, call.member = some (cstr "RequestName")

def RuleCall (env : Env) (w : WireMsg) (raw : Bytes) : Prop :=
  toDriver w = true ∧ ∃ call ∈ env.lib.demarshal raw, call.member = some (cstr "AddMatch")

instance (env : Env) (c : Conn) (w : WireMsg) (raw : Bytes) : Decidable (MonitorCall env c w raw) := by
  unfold MonitorCall
  infer_instance

instance (env : Env) (w : WireMsg) (raw : Bytes) : Decidable (NameCall env w raw) := by
  unfold NameCall
  infer_instance

instance (env : Env) (w : WireMsg) (raw : Bytes) : Decidable (RuleCall env w raw) := by
  unfold RuleCall
  infer_instance

/-! ## Driver calls -/

theorem monitorAnswer_granted {rules : MatchSet} (h : (b.monitorAnswer env c w raw).2 = some rules) :
    ∃ call ∈ env.lib.demarshal raw, (monitorRequest env c call).isOk = true := by
  unfold monitorAnswer at h
  cases hcall : env.lib.demarshal raw with
  | none =>
    rw [hcall] at h
    cases h
  | some call =>
    rw [hcall] at h
    dsimp only at h
    cases hreq : monitorRequest env c call with
    | error e =>
      rw [hreq] at h
      cases h
    | ok rules' => exact ⟨call, rfl, by rw [hreq]; rfl⟩

theorem bus_dropNames (env : Env) (b : Broker) (id : ConnId) : (b.dropNames env id).bus = b.bus.dropNames id := by
  have hmod : ({ b with names := (b.names.disconnect id).1 }.modConn id (fun c => { c with unique := none })).bus =
      { b.bus with names := (b.names.disconnect id).1 }.mod id (fun c => { c with unique := none }) :=
    bus_modConn _ id (fun _ => rfl)
  unfold dropNames Bus.dropNames
  rw [uniqueOf_bus]
  cases b.uniqueOf id with
  | none =>
    rw [bus_broadcastTransitions, hmod]
    simp [logged, mod, bus]
  | some u =>
    dsimp only [broadcastUniqueGone]
    rw [bus_announce, bus_broadcastTransitions, hmod]
    simp [logged, mod, bus, goneChange]

theorem moves_turnMonitor (env : Env) {id : ConnId} (hid : id ∈ b.bus.ids) (rules : MatchSet) :
    Moves b (b.turnMonitor env id rules) (.monitor id rules) := by
  refine ⟨?_, hid⟩
  have hlost := (talk_ownNameLost env b id).steady.bus
  have hmod := bus_modConn ((b.ownNameLost env id).dropNames env id) id
    (f := fun c => { c with rules := none, monRules := some rules, isMonitor := true }) (fun _ => rfl)
  rw [bus_dropNames, hlost] at hmod
  exact hmod

theorem causes_driverCall (env : Env) (hid : c.id ∈ b.bus.ids) (hdriver : toDriver w = true) :
    Causes b (b.driverCall env c w raw) c (NameCall env w raw) (RuleCall env w raw) (MonitorCall env c w raw) := by
  unfold driverCall
  cases hcall : env.lib.demarshal raw with
  | none => exact .stay (talk_synthErrorWire env b ..).steady.bus
  | some call =>
    have hwhole : Causes b (b.driverDispatch env c call).1 c (NameCall env w raw) (RuleCall env w raw)
        (MonitorCall env c w raw) := by
      obtain ⟨l, hmove, hcause⟩ := causes_driverDispatch env hid call
      exact ⟨l, hmove, hcause.mono (fun h => ⟨hdriver, call, hcall, h⟩) (fun h => ⟨hdriver, call, hcall, h⟩) id⟩
    dsimp only
    split
    case h_1 b' hb' => rwa [hb'] at hwhole
    case h_2 b' hb' =>
      rw [hb'] at hwhole
      exact hwhole.andThen (talk_synthErrorWire env b' ..).steady.bus

theorem causes_becomeMonitor (env : Env) (hid : c.id ∈ b.bus.ids) (nfds : Nat) (hdriver : toDriver w = true)
    (hmember : w.member = some (cstr "BecomeMonitor")) :
    Causes b (b.becomeMonitor env c w raw nfds) c asks adds (MonitorCall env c w raw) := by
  have hbus := (talk_monitorAnswer env b c w raw).steady.bus
  unfold becomeMonitor
  split
  case h_1 b' hb' =>
    rw [hb'] at hbus
    exact .stay ((haul_finishMessage b' ..).bus.trans hbus)
  case h_2 b' rules hb' =>
    rw [hb'] at hbus
    have hfinish := (haul_finishMessage b' c.id nfds false).bus.trans hbus
    have hid' : c.id ∈ (b'.finishMessage c.id nfds false).bus.ids := hfinish ▸ hid
    exact ⟨_, (moves_turnMonitor env hid' rules).before hfinish,
      .monitor rules ⟨hdriver, hmember, monitorAnswer_granted (by rw [hb'])⟩⟩

theorem causes_handleDriver (env : Env) (hid : c.id ∈ b.bus.ids) (nfds : Nat) (hdriver : toDriver w = true) :
    Causes b (b.handleDriver env c w raw nfds) c (NameCall env w raw) (RuleCall env w raw)
      (MonitorCall env c w raw) := by
  unfold handleDriver
  split
  · exact .stay ((haul_finishMessage ..).bus.trans (calm_startServiceByName env b c w raw).bus)
  · split
    case isTrue hmember => exact causes_becomeMonitor env hid nfds hdriver hmember
    · split
      · exact .stay ((haul_finishMessage ..).bus.trans (calm_configCall env b c w raw).bus)
      · exact (causes_driverCall env hid hdriver).andThen (haul_finishMessage ..).bus

/-! ## Routed messages -/

theorem causes_handleMessage (env : Env) {id : ConnId} (hc : b.conn? id = some c) (w : WireMsg) (raw : Bytes) :
    (b.handleMessage env id w raw).bus = b.bus ∨ c.isMonitor = false ∧
        Causes b (b.handleMessage env id w raw) c (NameCall env w raw)
          (RuleCall env w raw) (MonitorCall env c w raw) := by
  have hid : c.id = id := key_of_lookup hc
  subst hid
  unfold handleMessage
  rw [hc]
  dsimp only
  split
  · refine .inl ?_
    rw [(talk_drainScratch _ _).steady.bus, (haul_dropPending _ _).bus]
    exact (talk_synthErrorWire env b ..).steady.bus
  · split
    · exact .inl (haul_consumeMsgFds b ..).bus
    case isFalse hmonitor =>
      have hmon := (talk_monitorInbound b c w raw (sdbusWireNFds w).toNat).steady
      split
      case isTrue hdriver =>
        refine .inr ⟨by simpa using hmonitor, (causes_handleDriver env ?_ _ hdriver).before hmon.bus⟩
        rw [hmon.bus]
        exact mem_ids_of_conn? hc
      · split
        · exact .inl ((haul_refuse env ..).bus.trans hmon.bus)
        · split
          · exact .inl ((haul_refuse env ..).bus.trans hmon.bus)
          · exact .inl ((haul_handleRouted env _ _ trivial ..).bus.trans hmon.bus)

/-! ## Connections come and go -/

theorem moves_addConn (b : Broker) (creds : Creds) :
    Moves b (b.addConn creds) .stay ∨ Moves b (b.addConn creds) .turnAway ∨
      ∃ fd, Moves b (b.addConn creds) (.accept (new fd b.nextId creds)) := by
  have hopen := steady_openFd b
  have hnext := hopen.nextId
  unfold addConn
  dsimp only
  split
  · exact .inl (Moves.stay hopen.bus)
  · split
    · refine .inr (.inl ⟨?_, trivial⟩)
      rw [(steady_closeFd _ _).bus]
      simp only [apply, ← hopen.bus]
      rfl
    · refine .inr (.inr ⟨b.openFd.2, ?_, rfl, rfl⟩)
      simp only [apply, ← hopen.bus]
      simp only [bus, map_append, map_cons, map_nil, hnext]
      rfl

theorem bus_freeConn (b : Broker) (c : Conn) : (b.freeConn c).bus = b.bus.forget c.id := by
  have hclose : Steady b (((b.closeFds c.pendingFds).closeFd c.fd).closeFds (c.oq.flatMap OutChunk.fds)) :=
    ((steady_closeFds b _).trans (steady_closeFd _ _)).trans (steady_closeFds _ _)
  rw [← hclose.bus]
  simp [freeConn, forget, bus, without, swapOut_map id_face]

theorem bus_removeConn (env : Env) {id : ConnId} (hid : id ∈ b.bus.ids) :
    (b.removeConn env id).bus = b.bus.apply (.leave id) := by
  obtain ⟨c, hc⟩ := exists_conn hid
  obtain ⟨n, b₂, htalk, heq⟩ := removeConn_steps env b id hc
  have hbus₂ : b₂.bus = b.bus.dropNames id := htalk.steady.bus.trans (bus_dropNames ..)
  have hids : ({ b₂ with replies := repliesPurge b₂.replies id } : Broker).bus.ids = b.bus.ids := by
    show b₂.bus.ids = _
    rw [hbus₂]
    exact ids_mod _ id (fun _ => rfl)
  obtain ⟨c', hc'⟩ := exists_conn (hids ▸ hid)
  rw [heq]
  dsimp only
  rw [hc', bus_freeConn, key_of_lookup hc']
  show b₂.bus.forget id = (b.bus.dropNames id).forget id
  rw [hbus₂]

theorem moves_removeConn (env : Env) {id : ConnId} (hid : id ∈ b.bus.ids) : Moves b (b.removeConn env id) (.leave id) :=
  ⟨bus_removeConn env hid, hid⟩

/-! ## Input and output -/

theorem steady_openFds (b : Broker) (n : Nat) : Steady b (b.openFds n).1 := by
  induction n generalizing b with
  | zero => exact Steady.refl b
  | succ n ih => exact (steady_openFd b).trans (ih _)

theorem steady_takeFds (b : Broker) (c : Conn) (nfds : Nat) : Steady b (b.takeFds c nfds) := by
  unfold takeFds
  exact ((steady_openFds b nfds).trans (steady_modConn _ c.id (fun _ => by rfl))).trans (steady_closeFds _ _)

theorem bus_setConn (hd : b.ids.Nodup) {id : ConnId} (hc : b.conn? id = some c)
    {f : Conn → Conn} (hf : c'.face = f c.face) : (b.modConn id (fun _ => c')).bus = b.bus.mod id f := by
  simp only [bus, modConn, Bus.mod, update, map_map, Bus.mk.injEq, true_and, and_true]
  apply map_congr_left
  intro d hmem
  by_cases hid : d.id = id
  · have hdc : b.conn? id = some d := hid ▸ lookup_of_mem hd hmem
    rw [hc] at hdc
    cases hdc
    simp [id_face, hid, hf]
  · simp [id_face, hid]

end Broker

def Conn.unshaken (c : Conn) : Conn :=
  { c with
    authed := false, authOk := false, negotiatedFd := false, sawNul := false, inBuf := [], inOver := false, out := [] }

theorem Conn.face_of_unshaken (h : c'.unshaken = c.unshaken) : c'.face = c.face.shaken c' := by
  cases c
  cases c'
  simp_all [unshaken, face, shaken]

theorem unshaken_authLine (guid : Bytes) (c : Conn) (line : Bytes) : (authLine guid c line).unshaken = c.unshaken := by
  have hanswer : ∀ arg, (answerIdentity guid c arg).unshaken = c.unshaken := by
    intro arg
    unfold answerIdentity
    split <;> rfl
  unfold authLine
  split
  · dsimp only
    split
    · rfl
    · exact hanswer _
  · split
    · exact hanswer _
    · split
      · rfl
      · split
        · rfl
        · split <;> rfl

theorem unshaken_authLines (guid : Bytes) (fuel : Nat) (c : Conn) :
    (authLines guid fuel c).1.unshaken = c.unshaken := by
  induction fuel generalizing c with
  | zero => rfl
  | succ fuel ih =>
    unfold authLines
    split
    · rfl
    · dsimp only
      split
      · split <;> rfl
      · rw [ih, unshaken_authLine]
        rfl

theorem unshaken_authFeed (guid : Bytes) (c : Conn) (data : Bytes) :
    (authFeed guid c data).1.unshaken = c.unshaken := by
  have happend : (c.inAppend data).unshaken = c.unshaken := by
    unfold inAppend
    split <;> rfl
  unfold authFeed
  dsimp only
  split
  · exact happend
  · split
    · rw [unshaken_authLines]
      exact happend
    · split
      · exact happend
      · split
        · exact happend
        · rw [unshaken_authLines]
          exact happend

namespace Broker

theorem moves_takeBytes (env : Env) (hd : b.bus.ids.Nodup) (id : ConnId) (data : Bytes) :
    (∃ l, Moves b (b.takeBytes env id data) l ∧ (l = .stay ∨ ∃ k, l = .shake id k)) ∨
      (Moves b (b.takeBytes env id data) (.leave id) ∧
        ∀ c, b.conn? id = some c → c.authed = true → (c.inAppend data).inOver = true) := by
  unfold takeBytes
  cases hc : b.conn? id with
  | none => exact .inl ⟨.stay, Moves.stay rfl, .inl rfl⟩
  | some c =>
    have hid := mem_ids_of_conn? hc
    dsimp only
    split
    · have happend : (b.modConn id (fun c => c.inAppend data)).bus = b.bus := by
        refine (steady_modConn b id fun c => ?_).bus
        unfold inAppend
        split <;> rfl
      split
      case isTrue hover =>
        refine .inr ⟨(moves_removeConn env ?_).before happend, fun c' hc' _ => ?_⟩
        · rwa [happend]
        · cases hc'
          exact hover
      · exact .inl ⟨.stay, Moves.stay happend, .inl rfl⟩
    case isFalse hauthed =>
      have hshake : ((b.modConn id (fun _ => (authFeed env.guid c data).1)).drainScratch id).bus =
          b.bus.mod id (fun k => k.shaken (authFeed env.guid c data).1) := by
        rw [(talk_drainScratch _ id).steady.bus]
        refine bus_setConn ?_ hc (face_of_unshaken (unshaken_authFeed env.guid c data))
        rwa [← ids_bus]
      split
      · -- the handshake is refused: what it changed goes with the connection
        refine .inr ⟨⟨?_, hid⟩, fun c' hc' ha => ?_⟩
        · have hids : id ∈ (b.bus.mod id (fun k => k.shaken (authFeed env.guid c data).1)).ids := by
            rwa [ids_mod b.bus id (f := fun k => k.shaken (authFeed env.guid c data).1) (fun _ => rfl)]
          rw [bus_removeConn env (hshake ▸ hids), hshake]
          exact apply_leave_mod hd id (fun _ => rfl) (fun _ => rfl)
        · cases hc'
          exact absurd ha hauthed
      · exact .inl ⟨.shake id (authFeed env.guid c data).1, ⟨hshake, hid⟩, .inr ⟨_, rfl⟩⟩

theorem bus_flush (hd : b.ids.Nodup) {id : ConnId} (hc : b.conn? id = some c)
    (answers : List SendResult) (closed : List Int) :
    (b.modConn id (fun _ => (c.flush answers closed).1)).bus = b.bus := by
  rw [bus_setConn hd hc (f := fun c => c) (face_flush answers c closed)]
  simp [mod, update]

/-! ## Steps -/

def nextMsg (b : Broker) (id : ConnId) : Option (Conn × WireMsg) :=
  match b.conn? id with
  | none => none
  | some c =>
    match sdbusWireParse c.inBuf with
    | .complete w => some (c, w)
    | _ => none

/-- The connection `id` gives up its names in this step: it is removed, or it
becomes a monitor.  A connection that has not authenticated owns none, so it
does not matter here how its handshake ends. -/
def Drops (b : Broker) (i : Input) (id : ConnId) : Prop :=
  match i.event with
  | .hangup x => x = id
  | .receive x data _ =>
    x = id ∧ ∀ c ∈ b.conn? id, c.authed = true → (c.inAppend (data.take 65536)).inOver = true
  | .writable x answers => x = id ∧ ∀ c ∈ b.conn? id, (c.flush answers []).2.2 = false
  | .sweep => (b.conns.find? Conn.oqOver).map Conn.id = some id
  | .deliver x => x = id ∧ ∃ m ∈ b.nextMsg id, MonitorCall i.env m.1 m.2 (m.1.inBuf.take m.2.totalLen)
  | _ => False

def Asks (b : Broker) (i : Input) (id : ConnId) : Prop :=
  match i.event with
  | .deliver x => x = id ∧ ∃ m ∈ b.nextMsg id, NameCall i.env m.2 (m.1.inBuf.take m.2.totalLen)
  | _ => False

instance (b : Broker) (i : Input) (id : ConnId) : Decidable (b.Drops i id) := by
  unfold Drops
  split <;> infer_instance

instance (b : Broker) (i : Input) (id : ConnId) : Decidable (b.Asks i id) := by
  unfold Asks
  split <;> infer_instance

inductive MoveIn (b : Broker) (i : Input) : Label → Prop
  | stay : MoveIn b i .stay
  | turnAway : MoveIn b i .turnAway
  | accept (fd : Int) (creds : Creds) : MoveIn b i (.accept (Conn.new fd b.nextId creds))
  | shake (id : ConnId) (k : Conn) : MoveIn b i (.shake id k)
  | leave {id : ConnId} (h : Drops b i id) : MoveIn b i (.leave id)
  | message {id : ConnId} {c : Conn} {w : WireMsg} {l : Label} (hev : i.event = .deliver id) (hc : b.conn? id = some c)
      (hnext : b.nextMsg id = some (c, w)) (hmonitor : c.isMonitor = false)
      (h : MoveOf c (NameCall i.env w (c.inBuf.take w.totalLen)) (RuleCall i.env w (c.inBuf.take w.totalLen))
        (MonitorCall i.env c w (c.inBuf.take w.totalLen)) l) : MoveIn b i l

def StepMoves (b b' : Broker) (i : Input) : Prop :=
  ∃ l, Moves b b' l ∧ (∀ id, l.leaves = some id → Drops b i id) ∧ ∀ id, l.asks = some id → Asks b i id

def Steps (b b' : Broker) (i : Input) : Prop :=
  ∃ l, Moves b b' l ∧ MoveIn b i l

theorem Steps.stay (h : b'.bus = b.bus) (i : Input) : Steps b b' i :=
  ⟨.stay, Moves.stay h, .stay⟩

theorem steps_removeConn (id : ConnId) (hb' : b'.bus = b.bus)
    (hdrops : ∀ c, b.conn? id = some c → Drops b i id) : Steps b (b'.removeConn i.env id) i := by
  cases hc : b'.conn? id with
  | none =>
    rw [removeConn_of_none _ _ _ hc]
    exact .stay hb' i
  | some c' =>
    obtain ⟨c, hc⟩ := exists_conn (hb' ▸ mem_ids_of_conn? hc)
    exact ⟨_, (moves_removeConn i.env (mem_ids_of_conn? ‹_›)).before hb', .leave (hdrops c hc)⟩

@[simp] theorem conns_closeFd (b : Broker) (fd : Int) : (b.closeFd fd).conns = b.conns := by
  unfold closeFd
  split
  · rfl
  · split <;> rfl

@[simp] theorem conns_closeFds (b : Broker) (fds : List Int) : (b.closeFds fds).conns = b.conns := by
  induction fds generalizing b with
  | nil => rfl
  | cons fd fds ih => exact (ih _).trans (conns_closeFd b fd)

@[simp] theorem conns_allocFd (b : Broker) (file : Nat) : (b.allocFd file).1.conns = b.conns := by
  unfold allocFd
  split <;> rfl

@[simp] theorem conns_openFds (b : Broker) (n : Nat) : (b.openFds n).1.conns = b.conns := by
  induction n generalizing b with
  | zero => rfl
  | succ n ih => exact (ih _).trans (conns_allocFd _ _)

theorem conn?_takeFds (b : Broker) {id : ConnId} (hc : b.conn? id = some c) (nfds : Nat) :
    ∃ fds, (b.takeFds c nfds).conn? id = some { c with pendingFds := fds } := by
  obtain rfl : c.id = id := key_of_lookup hc
  have hc' : (b.openFds nfds).1.conn? c.id = some c := by rwa [conn?, conns_openFds]
  refine ⟨c.pendingFds ++ (b.openFds nfds).2.take (maxPendingFds - c.pendingFds.length), ?_⟩
  unfold takeFds conn?
  rw [conns_closeFds]
  unfold modConn
  rw [lookup_update_self (fun _ => by rfl) hc']

theorem steps_receive (hd : b.bus.ids.Nodup) (i : Input) {id : ConnId} {data : Bytes} {nfds : Nat}
    (hi : i.event = .receive id data nfds) : Steps b (b.receive i.env id data nfds) i := by
  unfold receive
  cases hc : b.conn? id with
  | none => exact .stay rfl i
  | some c =>
    have hfds := (steady_takeFds b c nfds).bus
    have hd' : (b.takeFds c nfds).bus.ids.Nodup := by rwa [hfds]
    rcases moves_takeBytes i.env hd' id (data.take 65536) with ⟨l, hmove, rfl | ⟨k, rfl⟩⟩ | ⟨hmove, hover⟩
    · exact ⟨_, hmove.before hfds, .stay⟩
    · exact ⟨_, hmove.before hfds, .shake id k⟩
    · refine ⟨_, hmove.before hfds, .leave ?_⟩
      simp only [Drops, hi, true_and]
      rintro c' hc' hauthed
      rw [hc] at hc'
      cases hc'
      obtain ⟨fds, hfds⟩ := conn?_takeFds b hc nfds
      have happend := hover _ hfds hauthed
      unfold inAppend at happend ⊢
      split
      · rfl
      case isFalse hle => rwa [if_neg hle] at happend

theorem steps_deliver (b : Broker) (i : Input) {id : ConnId} (hi : i.event = .deliver id) :
    Steps b (b.deliver i.env id) i := by
  unfold deliver
  cases hc : b.conn? id with
  | none => exact .stay rfl i
  | some c =>
    dsimp only
    split
    · exact .stay rfl i
    · split
      · exact .stay rfl i
      · exact .stay ((steady_modConn _ id (f := fun c => { c with inBuf := [] }) (fun _ => rfl)).bus.trans
          (haul_dropPending b id).bus) i
      case h_3 w hw =>
        have hconsume := (steady_modConn (b.handleMessage i.env id w (c.inBuf.take w.totalLen)) id
          (f := fun c => c.inConsume w.totalLen) (fun _ => rfl)).bus
        have hnext : b.nextMsg id = some (c, w) := by simp [nextMsg, hc, hw]
        rcases causes_handleMessage i.env hc w (c.inBuf.take w.totalLen) with hbus | ⟨hmonitor, l, hmove, hcause⟩
        · exact .stay (hconsume.trans hbus) i
        · exact ⟨l, hmove.andThen hconsume, .message hi hc hnext hmonitor hcause⟩

theorem steps_writable (hd : b.bus.ids.Nodup) (i : Input) {id : ConnId} {answers : List SendResult}
    (hi : i.event = .writable id answers) : Steps b (b.writable i.env id answers) i := by
  unfold writable
  cases hc : b.conn? id with
  | none => exact .stay rfl i
  | some c =>
    have hflush : ((b.modConn id (fun _ => (c.flush answers []).1)).closeFds (c.flush answers []).2.1).bus = b.bus :=
      (bus_closeFds _ _).trans (bus_flush (by rwa [← ids_bus]) hc answers [])
    dsimp only
    split
    · exact .stay hflush i
    case isFalse hbroken =>
      refine steps_removeConn id hflush fun c' hc' => ?_
      simp only [Drops, hi, true_and]
      intro c'' hc''
      rw [hc] at hc''
      cases hc''
      simpa using hbroken

theorem steps_step (hd : b.bus.ids.Nodup) (i : Input) : Steps b (step b i) i := by
  unfold step
  cases hi : i.event with
  | accept creds =>
    dsimp only
    split
    · exact .stay rfl i
    · rcases moves_addConn b creds with h | h | ⟨fd, h⟩
      · exact ⟨_, h, .stay⟩
      · exact ⟨_, h, .turnAway⟩
      · exact ⟨_, h, .accept fd creds⟩
  | receive id data nfds =>
    dsimp only
    split
    · exact .stay rfl i
    · exact steps_receive hd i hi
  | deliver id => exact steps_deliver b i hi
  | writable id answers => exact steps_writable hd i hi
  | hangup id => exact steps_removeConn id rfl (fun _ _ => by simp [Drops, hi])
  | expireReplies => exact .stay (quiet_expireReplies i.env b).calm.bus i
  | expireAct => exact .stay (quiet_expireAct i.env b).calm.bus i
  | childExit pid => exact .stay (quiet_childExit i.env b pid).calm.bus i
  | sweep =>
    dsimp only [sweep]
    split
    · exact .stay rfl i
    case h_2 c hc =>
      refine steps_removeConn c.id rfl fun _ _ => ?_
      simp only [Drops, hi]
      exact congrArg _ hc
  | reportFlush => exact .stay (talk_reportFlush i.env b).steady.bus i
  | reload =>
    dsimp only
    split
    · exact .stay rfl i
    · exact .stay (calm_reloadRequest i.env b none).bus i
  | dissolved outcome => exact .stay (calm_reloadReaped i.env b outcome).bus i
  | reloadTimeout => exact .stay (calm_reloadCheckTimeout i.env b).bus i
  | terminate =>
    refine .stay ?_ i
    rfl
  | abort =>
    dsimp only
    split
    · exact .stay ((calm_reloadAbort i.env b).trans (quiet_failActs i.env _).calm).bus i
    · exact .stay rfl i

theorem step_moves (hd : b.bus.ids.Nodup) (i : Input) : StepMoves b (step b i) i := by
  obtain ⟨l, hmove, hin⟩ := steps_step hd i
  refine ⟨l, hmove, ?_⟩
  cases hin with
  | leave h =>
    refine ⟨?_, fun _ h => (nomatch h)⟩
    rintro id ⟨⟩
    exact h
  | message hev hc hnext _ h =>
    obtain rfl := key_of_lookup hc
    cases h with
    | request name flags hasks =>
      refine ⟨fun _ h => (nomatch h), ?_⟩
      rintro id ⟨⟩
      simp only [Asks, hev]
      exact ⟨trivial, _, hnext, hasks⟩
    | monitor rules hturns =>
      refine ⟨?_, fun _ h => (nomatch h)⟩
      rintro id ⟨⟩
      simp only [Drops, hev]
      exact ⟨trivial, _, hnext, hturns⟩
    | _ => exact ⟨fun _ h => (nomatch h), fun _ h => (nomatch h)⟩
  | _ => exact ⟨fun _ h => (nomatch h), fun _ h => (nomatch h)⟩

theorem live_start (k : Config) : (start k).bus.Live where
  sound := Names.sound_new
  nodup := nodup_nil
  fresh := fun _ h => (nomatch h)
  holders := fun _ ⟨_, he, _⟩ => (nomatch he)

theorem live_step (h : b.bus.Live) (i : Input) : (step b i).bus.Live := by
  obtain ⟨l, ⟨hbus, hvalid⟩, _⟩ := step_moves h.nodup i
  rw [hbus]
  exact h.apply hvalid

theorem live_of_reachable {k : Config} (h : Reachable k b) : b.bus.Live :=
  h.invariant (fun b => b.bus.Live) (live_start k) (fun _ i hu _ => live_step hu i)

end Broker

end SchemaInit.Dbus
