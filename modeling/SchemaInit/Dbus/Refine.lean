/-
# `SchemaInit.Dbus.Refine` — the broker's steps as moves of the bus

`Broker.bus` forgets everything but the registry, the faces of the connections,
the next id and the log of owner changes.  Each function of the broker either
leaves the bus alone, or adds to the log, or is one move.  `MoveOf` says which
moves a message can make; a whole step is one move (`steps_step`).
-/
import SchemaInit.Dbus.Bus
import SchemaInit.Dbus.Haul

namespace SchemaInit.Dbus

open Bus Broker List

variable {b b' b'' : Broker} {c : Conn} {l : Label}

namespace Broker

variable (env : Env)

def bus (b : Broker) : Bus where
  names := b.names
  faces := b.conns.map Conn.face
  nextId := b.nextId
  log := b.ownerLog

theorem Steady.bus (h : Steady b b') : b'.bus = b.bus := by
  simp [Broker.bus, h.names, h.faces, h.nextId, h.ownerLog]

theorem face?_bus (b : Broker) (id : ConnId) : b.bus.face? id = (b.conn? id).map Conn.face :=
  lookup_face id b.conns

theorem ids_bus (b : Broker) : b.bus.ids = b.ids := by
  simp [Bus.ids, bus, ids, Function.comp_def, Conn.id_face]

theorem mem_ids_of_conn? {id : ConnId} (h : b.conn? id = some c) : id ∈ b.bus.ids := by
  rw [ids_bus]
  exact mem_map.mpr ⟨c, KeyedList.mem_of_lookup h, KeyedList.key_of_lookup h⟩

theorem exists_conn {id : ConnId} (h : id ∈ b.bus.ids) : ∃ c, b.conn? id = some c := by
  rw [ids_bus] at h
  exact KeyedList.exists_lookup h

theorem uniqueOf_bus (b : Broker) (id : ConnId) : b.bus.uniqueOf id = b.uniqueOf id := by
  rw [Bus.uniqueOf, face?_bus, uniqueOf]
  cases b.conn? id <;> rfl

theorem bus_modConn (b : Broker) (id : ConnId) {f : Conn → Conn} (hf : ∀ c, (f c).face = f c.face) :
    (b.modConn id f).bus = b.bus.mod id f := by
  simp only [bus, modConn, Bus.mod, KeyedList.update, map_map, Bus.mk.injEq, true_and, and_true]
  apply map_congr_left
  intro c _
  by_cases hid : c.id = id
  · simp [Conn.id_face, hid, hf]
  · simp [Conn.id_face, hid]

/-! ## Functions that leave the bus alone -/

@[simp] theorem bus_closeFds (b : Broker) (fds : List Int) : (b.closeFds fds).bus = b.bus :=
  (steady_closeFds b fds).bus

theorem Haul1.bus {new : ConnId → Prop} (h : Haul1 new b b') : b'.bus = b.bus := by
  cases h with
  | talk h => exact h.steady.bus
  | close fds => exact bus_closeFds b fds
  | dup fds => exact (steady_dupFds b fds).bus
  | send id bytes fds copies => exact (steady_enqueue b id bytes fds).bus
  | pending id g hg => exact (steady_modConn b id fun _ => by rfl).bus
  | replies replies => rfl
  | acts acts h => rfl

theorem Haul.bus (h : Haul (fun _ => True) b b') : b'.bus = b.bus := by
  induction h with
  | refl => rfl
  | tail _ hstep ih => exact hstep.bus.trans ih

theorem Calm1.bus (h : Calm1 b b') : b'.bus = b.bus := by
  cases h with
  | quiet h => exact (h.haul b).bus
  | field => rfl
  | await => rfl

theorem Calm.bus (h : Calm b b') : b'.bus = b.bus := by
  induction h with
  | refl => rfl
  | tail _ hstep ih => exact hstep.bus.trans ih

/-! ## Announcements -/

theorem bus_announce (b : Broker) (k : OwnerChange) (dying : Option ConnId) :
    (b.announce env k dying).bus = b.bus.logged [k] :=
  (talk_announce env b k dying).steady.bus

theorem uniqueOrEmpty_eq (b : Broker) (o : Option ConnId) : b.uniqueOrEmpty o = uniqueText? b.bus.names o := by
  cases o <;> rfl

theorem bus_broadcastTransition (b : Broker) (t : Transition) :
    (b.broadcastTransition env t).bus = b.bus.logged [ownerChange b.bus.names t] := by
  unfold broadcastTransition
  rw [(quiet_nameAcquired env ..).calm.bus, (talk_nameLost env ..).steady.bus,
    bus_announce, uniqueOrEmpty_eq, uniqueOrEmpty_eq]
  rfl

theorem bus_broadcastTransitions (b : Broker) (ts : List Transition) :
    (b.broadcastTransitions env ts).bus = b.bus.logged (ts.map (ownerChange b.bus.names)) := by
  induction ts generalizing b with
  | nil => simp [broadcastTransitions, logged]
  | cons t ts ih =>
    have hstep := bus_broadcastTransition env b t
    rw [broadcastTransitions, foldl_cons, ← broadcastTransitions, ih, hstep]
    simp [logged]

/-! ## Moves -/

def Moves (b b' : Broker) (l : Label) : Prop :=
  b'.bus = b.bus.apply l ∧ b.bus.Valid l

theorem Moves.stay (h : b'.bus = b.bus) : Moves b b' .stay :=
  ⟨h, trivial⟩

theorem Moves.andThen (h : Moves b b' l) (h' : b''.bus = b'.bus) : Moves b b'' l :=
  ⟨h'.trans h.1, h.2⟩

theorem Moves.before (h : b'.bus = b.bus) (h' : Moves b' b'' l) : Moves b b'' l := by
  unfold Moves at h' ⊢
  rwa [h] at h'

end Broker

def Label.asks : Label → Option ConnId
  | .request id _ _ => some id
  | _ => none

def Label.leaves : Label → Option ConnId
  | .monitor id _ | .leave id => some id
  | _ => none

variable {asks adds turns : Prop}

/-- The moves a message of `c` can make.  `asks`: it asks for a name; `adds`: it adds a rule;
`turns`: it makes its sender a monitor. -/
inductive MoveOf (c : Conn) (asks adds turns : Prop) : Label → Prop
  | stay : MoveOf c asks adds turns .stay
  | hello : MoveOf c asks adds turns (.hello c.id)
  | request (name : Bytes) (flags : ReqFlags) (h : asks) : MoveOf c asks adds turns (.request c.id name flags)
  | release (name : Bytes) : MoveOf c asks adds turns (.release c.id name)
  | setRules (rules : MatchSet) (h : rules ≠ [] → c.rules.getD [] ≠ [] ∨ adds) :
      MoveOf c asks adds turns (.setRules c.id rules)
  | monitor (rules : MatchSet) (h : turns) : MoveOf c asks adds turns (.monitor c.id rules)

theorem MoveOf.mono {asks' adds' turns' : Prop} (hasks : asks → asks') (hadds : adds → adds')
    (hturns : turns → turns') (h : MoveOf c asks adds turns l) : MoveOf c asks' adds' turns' l := by
  cases h with
  | stay => exact .stay
  | hello => exact .hello
  | request name flags h => exact .request name flags (hasks h)
  | release name => exact .release name
  | setRules rules h => exact .setRules rules fun hne => (h hne).imp_right hadds
  | monitor rules h => exact .monitor rules (hturns h)

namespace Broker

variable (env : Env)

/-! ### The driver's methods -/

theorem bus_reply (b : Broker) (id : ConnId) (call : DriverCall) (args : List Arg) :
    (b.reply env id call args).bus = b.bus :=
  (talk_reply env b id call args).steady.bus

theorem bus_replyError (b : Broker) (id : ConnId) (call : DriverCall) (name text : Bytes) :
    (b.replyError env id call name text).bus = b.bus :=
  (talk_replyError env b id call name text).steady.bus

theorem bus_invalidArgs (b : Broker) (id : ConnId) (call : DriverCall) (text : String) :
    (b.invalidArgs env id call text).bus = b.bus :=
  bus_replyError env b id call _ _

theorem moves_hello {id : ConnId} (hid : id ∈ b.bus.ids) (call : DriverCall) :
    Moves b (b.hello env id call) (.hello id) := by
  refine ⟨?_, hid⟩
  obtain ⟨c, hc⟩ := exists_conn hid
  have hunique : b.bus.uniqueOf id = c.unique := by
    rw [uniqueOf_bus, uniqueOf, hc]
    rfl
  simp only [hello, hc, Bus.apply, Bus.hello, hunique]
  cases c.unique with
  | some u =>
    rw [bus_reply, bus_modConn]
    intro c
    rfl
  | none =>
    rw [bus_reply, bus_modConn]
    · rfl
    · intro c
      rfl

theorem moves_setRules (hid : c.id ∈ b.bus.ids) (rules : MatchSet) :
    Moves b (b.setRules c.id rules) (.setRules c.id rules) :=
  ⟨bus_modConn b c.id (fun _ => rfl), hid⟩

def Causes (b b' : Broker) (c : Conn) (asks adds turns : Prop) : Prop :=
  ∃ l, Moves b b' l ∧ MoveOf c asks adds turns l

theorem Causes.stay (h : b'.bus = b.bus) : Causes b b' c asks adds turns :=
  ⟨.stay, Moves.stay h, .stay⟩

theorem Causes.andThen (h : Causes b b' c asks adds turns) (h' : b''.bus = b'.bus) :
    Causes b b'' c asks adds turns := by
  obtain ⟨l, hmove, hcause⟩ := h
  exact ⟨l, hmove.andThen h', hcause⟩

theorem Causes.before (h : b'.bus = b.bus) (h' : Causes b' b'' c asks adds turns) : Causes b b'' c asks adds turns := by
  obtain ⟨l, hmove, hcause⟩ := h'
  exact ⟨l, hmove.before h, hcause⟩

section

variable (hid : c.id ∈ b.bus.ids)
include hid

theorem requestName_moves (call : DriverCall) (name : Bytes) (flags : Nat) :
    (b.requestName env c call name flags).bus = b.bus ∨
      Moves b (b.requestName env c call name flags) (.request c.id name (ReqFlags.ofNat flags)) ∧
        (b.names.holds c.id name = false → b.names.countHeld c.id < maxNamesPerConn) := by
  unfold requestName
  split
  · exact .inl (bus_invalidArgs env b ..)
  case isFalse hname =>
    split
    · exact .inl (bus_replyError env b ..)
    · split
      · exact .inl (bus_replyError env b ..)
      case isFalse hroom =>
        refine .inr ⟨⟨?_, hid, fun h => hname (.inl h)⟩, fun hnot => ?_⟩
        · rw [bus_reply, bus_broadcastTransitions]
          rfl
        · by_contra hfull
          exact hroom ⟨hnot, Nat.not_lt.mp hfull⟩

theorem causes_requestName (hasks : asks) (call : DriverCall) (name : Bytes)
    (flags : Nat) : Causes b (b.requestName env c call name flags) c asks adds turns := by
  rcases requestName_moves env hid call name flags with h | ⟨h, -⟩
  · exact .stay h
  · exact ⟨_, h, .request _ _ hasks⟩

theorem causes_releaseName (call : DriverCall) (name : Bytes) :
    Causes b (b.releaseName env c call name) c asks adds turns := by
  refine ⟨.release c.id name, ⟨?_, hid⟩, .release name⟩
  unfold releaseName
  rw [bus_reply, bus_broadcastTransitions]
  rfl

theorem causes_addMatch (hadds : adds) (call : DriverCall) (rule : Bytes) :
    Causes b (b.addMatch env c call rule) c asks adds turns := by
  have hset (rules : MatchSet) : Causes b (b.setRules c.id rules) c asks adds turns :=
    ⟨_, moves_setRules hid rules, .setRules rules fun _ => .inr hadds⟩
  unfold addMatch
  dsimp only
  split
  · exact (hset _).andThen (bus_replyError env ..)
  · split
    · exact (hset _).andThen (bus_replyError env ..)
    · exact (hset _).andThen (bus_reply env ..)

theorem causes_removeMatch (call : DriverCall) (rule : Bytes) :
    Causes b (b.removeMatch env c call rule) c asks adds turns := by
  unfold removeMatch
  split
  · exact .stay (bus_replyError env b ..)
  case h_2 rules hrules =>
    obtain ⟨old, hold, hremove⟩ := Option.bind_eq_some_iff.mp hrules
    refine Causes.andThen ⟨_, moves_setRules hid rules, .setRules rules fun _ => .inl ?_⟩ (bus_reply env ..)
    rw [hold, Option.getD_some]
    rintro rfl
    cases hremove

end

end Broker

end SchemaInit.Dbus
