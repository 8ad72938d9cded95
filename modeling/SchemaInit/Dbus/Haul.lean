/-
# `SchemaInit.Dbus.Haul` — messages and their descriptors on the way

Handing a message on, holding it, letting go of what was held and taking the
descriptors of a message away come down to a few changes again: those of `Talk`,
descriptors closed or duplicated, a message queued with its descriptors, waiting
descriptors dropped, and new lists of pending replies and held calls.  `Haul` is
their closure.  It leaves alone what clients see of the bus, the bytes that have
arrived, and everything the reload works on.
-/
import SchemaInit.Dbus.Work

namespace SchemaInit.Dbus

namespace Broker

variable {new : ConnId → Prop} {b b' b'' : Broker}

inductive Haul1 (new : ConnId → Prop) : Broker → Broker → Prop
  | talk {b b' : Broker} (h : Talk1 b b') : Haul1 new b b'
  | close (b : Broker) (fds : List Int) : Haul1 new b (b.closeFds fds)
  | dup (b : Broker) (fds : List Int) : Haul1 new b (b.dupFds fds).1
  | send (b : Broker) (id : ConnId) (bytes : Bytes) (fds : List Int) (copies : List Copy) :
      Haul1 new b { b.enqueue id bytes fds with copies := copies }
  | pending (b : Broker) (id : ConnId) (g : List Int → List Int) (hg : ∀ l, (g l).length ≤ l.length) :
      Haul1 new b (b.modConn id (fun c => { c with pendingFds := g c.pendingFds }))
  | replies (b : Broker) (replies : Replies) : Haul1 new b { b with replies := replies }
  | acts (b : Broker) (acts : Acts) (h : ∀ m ∈ allHeld acts, m ∈ allHeld b.acts ∨ new m.callerId) :
      Haul1 new b { b with acts := acts }

def Haul (new : ConnId → Prop) : Broker → Broker → Prop := Relation.ReflTransGen (Haul1 new)

theorem Haul1.haul (h : Haul1 new b b') : Haul new b b' := Relation.ReflTransGen.single h

theorem Talk.haul (h : Talk b b') : Haul new b b' := Relation.ReflTransGen.mono (fun _ _ => Haul1.talk) _ _ h

theorem Haul.foldl {α : Type} {f : Broker → α → Broker} (h : ∀ b x, Haul new b (f b x)) (b : Broker) (l : List α) :
    Haul new b (l.foldl f b) :=
  l.foldlRecOn f .refl fun u hu x _ => hu.trans (h u x)

theorem haul_closeFds (b : Broker) (fds : List Int) : Haul new b (b.closeFds fds) := (Haul1.close b fds).haul

/-! ## Messages handed on -/

theorem haul_relayOne (ok : Conn → Bool) (bytes : Bytes) (declared : Int) (fds : List Int) (b : Broker) (id : ConnId) :
    Haul new b (relayOne ok bytes declared fds b id) := by
  unfold relayOne
  split
  · exact .refl
  · split
    · exact (Haul1.send b id bytes fds _).haul
    · exact .refl

theorem haul_relayAll (b : Broker) (ok : Conn → Bool) (bytes : Bytes) (declared : Int) (fds : List Int)
    (targets : List ConnId) : Haul new b (b.relayAll ok bytes declared fds targets) := by
  unfold relayAll
  split
  · exact .refl
  · exact (haul_relayOne ok bytes declared fds b _).trans (Haul.foldl (haul_relayOne ok bytes declared []) _ _)

variable (env : Env) (b : Broker)

theorem haul_releaseHeld (h : HeldMsg) : Haul new b (releaseHeld env b h) := by
  unfold releaseHeld
  split
  · refine .trans ?_ (haul_closeFds _ _)
    split
    · exact .refl
    · exact (talk_enqueueReply env b ..).haul
  · split
    case h_1 w caller _ _ =>
      split
      · dsimp only
        generalize routeTargets w caller b.names b.conns b.policy b.replies env.now = r
        have hrelay : Haul new b _ := (Haul1.replies b r.replies).haul.trans
          (haul_relayAll _ (fun _ => true) h.bytes (sdbusWireNFds w) h.fds r.targets)
        split
        · exact hrelay
        · exact hrelay.trans (haul_closeFds _ _)
      · exact haul_closeFds _ _
    · exact haul_closeFds _ _

theorem haul_failHeld (held : List HeldMsg) (name text : Bytes) : Haul new b (b.failHeld env held name text) := by
  refine Haul.foldl (fun b h => ?_) b held
  refine .trans ?_ (haul_closeFds _ _)
  split
  · exact .refl
  · split
    · exact (talk_synthErrorWire env b ..).haul
    · exact .refl

theorem haul_releaseActivation (name : Bytes) : Haul new b (b.releaseActivation env name) := by
  unfold releaseActivation actsTake actsFind
  cases hidx : b.acts.findIdx? (fun e => e.name = name) with
  | none => exact .refl
  | some i =>
    obtain ⟨hlt, -⟩ := List.findIdx?_eq_some_iff_getElem.mp hidx
    -- what is popped, goes
    have hpop : Haul new b { b with acts := (actsPop b.acts i).1 } :=
      (Haul1.acts b _ fun m hm => .inl ((allHeld_actsPop hlt).subset (List.mem_append_left _ hm))).haul
    exact hpop.trans (Haul.foldl (haul_releaseHeld env) _ _)

theorem Quiet1.haul (h : Quiet1 b b') : Haul new b b' := by
  cases h with
  | talk h => exact (Haul1.talk h).haul
  | replies replies => exact (Haul1.replies b replies).haul
  | release env name => exact haul_releaseActivation env b name
  | fail env acts held name text hperm =>
    exact (Haul1.acts b acts fun m hm => .inl (hperm.subset (List.mem_append_left _ hm))).haul.trans
      (haul_failHeld env _ held name text)

/-! ## Calls held for a service to come -/

theorem haul_actsHold {name : Bytes} {acts : Acts} {i : Nat} {m : HeldMsg}
    (hbegin : b.beginActivation env name = some (acts, i)) (hnew : new m.callerId) :
    Haul new b { b with acts := actsHold acts i m } := by
  refine (Haul1.acts b _ fun m' hm' => ?_).haul
  rcases mem_allHeld_actsHold hm' with rfl | hm'
  · exact .inr hnew
  · exact .inl (allHeld_beginActivation hbegin ▸ hm')

theorem haul_startServiceByName {c : Conn} (hnew : new c.id) (w : WireMsg) (raw : Bytes) :
    Haul new b (b.startServiceByName env c w raw) := by
  unfold startServiceByName
  split
  · exact (talk_synthErrorWire env b ..).haul
  · split
    · exact (talk_enqueueReply env b ..).haul
    · split
      · exact (talk_synthErrorWire env b ..).haul
      · split
        · exact (talk_synthErrorWire env b ..).haul
        case h_2 acts i hbegin => exact haul_actsHold env b hbegin hnew

theorem haul_activateOrHold {c : Conn} (hnew : new c.id) (w : WireMsg) (raw : Bytes) (nfds : Nat) :
    Haul new b (b.activateOrHold env c w raw nfds).1 := by
  have hdup : Haul new b (b.dupFds (c.pendingFds.take nfds)).1 := (Haul1.dup b _).haul
  unfold activateOrHold
  split
  · exact .refl
  · split
    · exact .refl
    · dsimp only
      split
      · exact hdup.trans (haul_closeFds _ _)
      case h_2 acts i hbegin =>
        exact (hdup.trans (haul_actsHold env _ hbegin hnew)).trans (haul_closeFds _ _)

/-! ## What a message leaves behind -/

variable (id : ConnId) (nfds : Nat)

theorem haul_consumeMsgFds (transferred : Bool) : Haul new b (b.consumeMsgFds id nfds transferred) := by
  have hdrop (b : Broker) : Haul new b (b.modConn id (fun c => { c with pendingFds := c.pendingFds.drop nfds })) :=
    (Haul1.pending b id _ (fun l => by simp)).haul
  unfold consumeMsgFds
  split
  · exact .refl
  · split
    · exact hdrop b
    · exact (haul_closeFds b _).trans (hdrop _)

theorem haul_dropPending : Haul new b (b.dropPending id) := by
  unfold dropPending
  split
  · exact .refl
  · exact (haul_closeFds b _).trans (Haul1.pending _ id (fun _ => []) (fun _ => Nat.zero_le _)).haul

theorem haul_finishMessage (transferred : Bool) : Haul new b (b.finishMessage id nfds transferred) :=
  (talk_drainScratch b id).haul.trans (haul_consumeMsgFds _ id nfds transferred)

theorem haul_refuse (w : WireMsg) (err text : String) : Haul new b (b.refuse env id w nfds err text) :=
  (talk_synthErrorWire env b ..).haul.trans (haul_finishMessage _ id nfds false)

theorem haul_handleRouted {c : Conn} (hnew : new c.id) (u : Bytes) (w : WireMsg) (raw : Bytes) :
    Haul new b (b.handleRouted env c u w raw nfds) := by
  unfold handleRouted
  dsimp only
  generalize routeTargets w c b.names b.conns b.policy b.replies env.now = r
  have hreplies : Haul new b { b with replies := r.replies } := (Haul1.replies b r.replies).haul
  split
  · exact hreplies.trans (haul_refuse env ..)
  · split
    · have hhold := hreplies.trans (haul_activateOrHold env _ hnew w raw nfds)
      split
      case h_1 b' hb' =>
        rw [hb'] at hhold
        exact hhold.trans (haul_finishMessage b' ..)
      case h_2 b' hb' =>
        rw [hb'] at hhold
        exact hhold.trans (haul_refuse env b' ..)
    · exact (hreplies.trans (haul_relayAll ..)).trans (haul_finishMessage ..)

end Broker

end SchemaInit.Dbus
