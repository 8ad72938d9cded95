/-
# `SchemaInit.Dbus.LedgerStep` — the books over whole runs

Where descriptors change hands: a message takes what arrived with it, hands it on
to its first recipient or closes it, and a connection that goes takes everything
with it.  Each of these keeps the books, with one exception: `activate_or_hold`
closes the duplicates it has just stored in a held message.  So the books are
right in every run in which no message with descriptors is put on hold.
-/
import SchemaInit.Dbus.Client
import SchemaInit.Dbus.Ledger

namespace SchemaInit.Dbus

open Bool Option List KeyedList Broker

variable {c : Conn} {f : Conn → Conn} {n : Nat} {w : WireMsg} {raw : Bytes} {i : Input}

namespace Broker

variable {base : FdTable Nat} {b b' : Broker} {hand twice fds : List Int}

theorem Ledger.allOpen (h : Ledger base b hand []) (hle : ∀ fd, fds.count fd ≤ b.slots.count fd + hand.count fd) :
    b.AllOpen fds := by
  intro fd
  have := h.balance fd
  have := hle fd
  simp only [count_nil] at *
  omega

theorem count_le_slots (hc : c ∈ b.conns) (fd : Int) : c.slots.count fd ≤ b.slots.count fd := by
  rw [count_slots]
  have := le_sum (fun c => c.slots.count fd) hc
  omega

theorem conn?_closeFds (b : Broker) (fds : List Int) (id : ConnId) : (b.closeFds fds).conn? id = b.conn? id := by
  rw [conn?, conns_closeFds]
  rfl

/-! ## What a message carries -/

theorem Ledger.takeOut {id : ConnId} {out rest : List Int} (h : Ledger base b [] out)
    (hc : b.conn? id = some c) (hsplit : out ++ rest = c.pendingFds)
    (hf : f c = { c with pendingFds := rest }) : Ledger base (b.modConn id f) [] [] := by
  have hmem := mem_of_lookup hc
  have hmod : Ledger base (b.modConn id f) (out ++ []) (out ++ []) := by
    rw [← append_nil out] at h
    refine Ledger.modConn [] out h hc (by rw [hf]) (fun fd => ?_) ?_ ?_
    · rw [hf]
      simp only [Conn.slots, ← hsplit, count_cons, count_append, count_nil]
      omega
    · rw [hf]
      have hroom := h.room c hmem
      rw [← hsplit, length_append] at hroom
      exact (Nat.le_add_left _ _).trans hroom
    · rw [hf]
      exact h.unsent c hmem
  exact hmod.repay

theorem count_pending_le (hc : c ∈ b.conns) (fds : List Int) (hsub : fds.Sublist c.pendingFds) (fd : Int) :
    fds.count fd ≤ b.slots.count fd := by
  have hle := count_le_slots hc fd
  have hpending := hsub.count_le fd
  simp only [Conn.slots, count_cons, count_append] at hle
  omega

/-- Descriptors that came with a connection are closed. -/
theorem Ledger.closePending {id : ConnId} {out rest : List Int} (h : Ledger base b [] []) (hc : b.conn? id = some c)
    (hsplit : out ++ rest = c.pendingFds) (hf : f c = { c with pendingFds := rest }) :
    Ledger base ((b.closeFds out).modConn id f) [] [] := by
  have hopen : b.AllOpen out :=
    h.allOpen (count_pending_le (mem_of_lookup hc) _ (hsplit ▸ sublist_append_left ..))
  have hclosed := h.closeAll hopen
  rw [append_nil] at hclosed
  exact hclosed.takeOut (by rwa [conn?_closeFds]) hsplit hf

theorem Ledger.consumeMsgFds (h : Ledger base b [] []) (id : ConnId) (n : Nat) :
    Ledger base (b.consumeMsgFds id n false) [] [] := by
  unfold Broker.consumeMsgFds
  cases hc : b.conn? id with
  | none => exact h
  | some c => exact h.closePending hc (take_append_drop n _) rfl

theorem Ledger.consumeHanded {id : ConnId} (h : Ledger base b [] (c.pendingFds.take n))
    (hc : b.conn? id = some c) : Ledger base (b.consumeMsgFds id n true) [] [] := by
  unfold Broker.consumeMsgFds
  rw [hc]
  exact h.takeOut hc (take_append_drop n _) rfl

theorem Ledger.dropPending (h : Ledger base b [] []) (id : ConnId) : Ledger base (b.dropPending id) [] [] := by
  unfold Broker.dropPending
  cases hc : b.conn? id with
  | none => exact h
  | some c => exact h.closePending hc (append_nil _) rfl

theorem Ledger.finishMessage (h : Ledger base b [] []) (id : ConnId) (n : Nat) :
    Ledger base (b.finishMessage id n false) [] [] :=
  (h.talk (talk_drainScratch b id)).consumeMsgFds id n

theorem Ledger.refuse (h : Ledger base b [] []) (env : Env) (id : ConnId) (w : WireMsg) (n : Nat)
    (err text : String) : Ledger base (b.refuse env id w n err text) [] [] :=
  (h.talk (talk_synthErrorWire env b ..)).finishMessage id n

/-! ## Messages put on hold -/

theorem closeFds_filter (b : Broker) (fds : List Int) : b.closeFds (fds.filter (0 ≤ ·)) = b.closeFds fds := by
  induction fds generalizing b with
  | nil => rfl
  | cons fd fds ih =>
    by_cases hneg : fd < 0
    · have hdrop : (fd :: fds).filter (fun x => decide (0 ≤ x)) = fds.filter (fun x => decide (0 ≤ x)) := by
        simp [hneg]
      have hstay : b.closeFd fd = b := if_pos hneg
      rw [hdrop, ih]
      show b.closeFds fds = (b.closeFd fd).closeFds fds
      rw [hstay]
    · have hkeep : (fd :: fds).filter (fun x => decide (0 ≤ x)) = fd :: fds.filter (fun x => decide (0 ≤ x)) := by
        rw [filter_cons, if_pos (by simp; omega)]
      rw [hkeep]
      exact ih (b.closeFd fd)

/-- A message is put on hold: its destination is activatable, and its service is
being started or can be. -/
def Holds (b : Broker) (env : Env) (dest : Bytes) : Prop :=
  (svctabFind b.svctab dest).isSome = true ∧ (b.beginActivation env dest).isSome = true

theorem Ledger.activateOrHold (h : Ledger base b [] []) (env : Env) (c : Conn) (w : WireMsg) (raw : Bytes)
    (hfree : ∀ dest, w.destination = some dest → b.Holds env dest → n = 0) :
    Ledger base (b.activateOrHold env c w raw n).1 [] [] := by
  have ho := opens_dupFds b (c.pendingFds.take n)
  have hopened := h.opened ho
  unfold Broker.activateOrHold
  split
  · exact h
  case h_2 dest hdest =>
    split
    · exact h
    case isFalse hsvc =>
      have hbegin : (b.dupFds (c.pendingFds.take n)).1.beginActivation env dest = b.beginActivation env dest := by
        simp [beginActivation, ho.acts]
      dsimp only
      rw [hbegin]
      split
      · rw [← closeFds_filter]
        exact hopened.closeHand ho.allOpen
      case h_2 acts i hacts =>
        have hzero : n = 0 := by
          refine hfree dest hdest ⟨?_, by rw [hacts]; rfl⟩
          cases hfind : svctabFind b.svctab dest with
          | none => exact absurd (by rw [hfind]; rfl) hsvc
          | some e => rfl
        subst hzero
        refine h.setActs fun m hm => ?_
        rcases mem_allHeld_actsHold hm with rfl | hm
        · rfl
        · exact h.noneHeld m (allHeld_beginActivation hacts ▸ hm)

/-! ## Messages handed on -/

def pendingOf (b : Broker) (id : ConnId) : Option (List Int) :=
  (b.conn? id).map Conn.pendingFds

theorem pendingOf_modConn (b : Broker) (id : ConnId) (hid : ∀ c, (f c).id = c.id)
    (hf : ∀ c, (f c).pendingFds = c.pendingFds) (x : ConnId) : (b.modConn id f).pendingOf x = b.pendingOf x := by
  unfold pendingOf conn? modConn
  rw [lookup_update hid]
  cases lookup Conn.id x b.conns with
  | none => rfl
  | some c =>
    simp only [map_some]
    split
    · rw [hf]
    · rfl

theorem pendingOf_of_conns (h : b'.conns = b.conns) (x : ConnId) : b'.pendingOf x = b.pendingOf x := by
  unfold pendingOf conn?
  rw [h]

theorem pendingOf_enqueue (b : Broker) (id : ConnId) (bytes : Bytes) (fds : List Int) (x : ConnId) :
    (b.enqueue id bytes fds).pendingOf x = b.pendingOf x := by
  have hmod := b.pendingOf_modConn id (f := fun c => c.enqueue bytes fds)
    (fun c => by unfold Conn.enqueue; split <;> rfl) (fun c => by unfold Conn.enqueue; split <;> rfl) x
  unfold enqueue
  split
  · rfl
  · split
    · rw [pendingOf_of_conns (conns_closeFds _ _), hmod]
    · exact hmod

theorem pendingOf_talk (h : Talk b b') (x : ConnId) : b'.pendingOf x = b.pendingOf x := by
  induction h with
  | refl => rfl
  | @tail b₁ b₂ _ hstep ih =>
    rw [← ih]
    cases hstep with
    | serial => rfl
    | enqueue id bytes => exact b₁.pendingOf_enqueue id bytes [] x
    | copy id bytes fds c hc hfds =>
      rw [pendingOf_enqueue, pendingOf_of_conns (opens_dupFds b₁ fds).conns]
    | out id g => exact b₁.pendingOf_modConn id (f := fun c => { c with out := g c }) (fun _ => rfl) (fun _ => rfl) x
    | reports => rfl
    | socket =>
      split
      · exact pendingOf_of_conns (opens_openFd b₁).conns x
      · exact pendingOf_of_conns (opens_openFd b₁).conns x

theorem pendingOf_relayOne (ok : Conn → Bool) (bytes : Bytes) (declared : Int) (fds : List Int) (b : Broker)
    (id x : ConnId) : (relayOne ok bytes declared fds b id).pendingOf x = b.pendingOf x := by
  unfold relayOne
  split
  · rfl
  · split
    · exact b.pendingOf_enqueue id bytes fds x
    · rfl

theorem pendingOf_relayAll (b : Broker) (ok : Conn → Bool) (bytes : Bytes) (declared : Int) (fds : List Int)
    (targets : List ConnId) (x : ConnId) : (b.relayAll ok bytes declared fds targets).pendingOf x = b.pendingOf x := by
  have hfold : ∀ (l : List ConnId) (b : Broker),
      (l.foldl (relayOne ok bytes declared []) b).pendingOf x = b.pendingOf x := by
    intro l
    induction l with
    | nil => exact fun _ => rfl
    | cons id l ih => exact fun b => (ih _).trans (pendingOf_relayOne ok bytes declared [] b id x)
  unfold relayAll
  split
  · rfl
  · rw [hfold, pendingOf_relayOne]

theorem Ledger.relayAll (h : Ledger base b [] []) (hlen : fds.length ≤ maxPendingFds) (hopen : b.AllOpen fds)
    (ok : Conn → Bool) (bytes : Bytes) (declared : Int) (targets : List ConnId) :
    Ledger base (b.relayAll ok bytes declared fds targets) []
      (if (targets.head?.bind b.conn?).any ok then fds else []) := by
  cases targets with
  | nil => exact h
  | cons first rest =>
    have hfirst : Ledger base (relayOne ok bytes declared fds b first) []
        (if (b.conn? first).any ok then fds else []) := by
      unfold relayOne
      cases hc : b.conn? first with
      | none => exact h
      | some dst =>
        simp only [any_some]
        split
        · have hborrow := (h.borrow fds).enqueue hc hlen hopen bytes
          rw [append_nil] at hborrow
          exact hborrow.same rfl rfl rfl rfl rfl
        · exact h
    exact Ledger.foldl hfirst (fun b hb x _ => hb.relayNil ok bytes declared x)

theorem routeTargets_synthError {names : Names} {all : List Conn} {pol : Policy}
    {replies : Replies} {now : Int} (h : (routeTargets w c names all pol replies now).synthError = true) :
    w.isReply = false ∧ w.type ≠ typeSignal ∧ routeResolve names all w.destination = none := by
  cases hresolve : routeResolve names all w.destination with
  | none =>
    simp only [routeTargets, hresolve] at h
    by_cases hreply : w.isReply = true
    · rw [if_pos hreply] at h
      cases h
    · rw [if_neg hreply] at h
      split at h
      · cases h
      · split at h
        · cases h
        case isFalse hsignal => exact ⟨eq_false_iff.mpr hreply, hsignal, rfl⟩
  | some owner =>
    simp only [routeTargets, hresolve] at h
    split at h
    · cases h
    · split at h
      · cases h
      · split at h
        · cases h
        · cases h

theorem type_of_forwardable {L : Libdbus} (h : wireForwardable L raw w = true) :
    w.type = typeMethodCall ∨ w.type = typeSignal ∨ w.isReply = true := by
  have hmembers : requiredMembers w = true := by
    simp only [wireForwardable, and_eq_true] at h
    exact h.1.2
  unfold requiredMembers at hmembers
  split at hmembers
  case isTrue htype => exact htype.imp_right .inl
  · split at hmembers
    case isTrue htype =>
      simp only [and_eq_true] at hmembers
      exact .inr (.inr (by simp [WireMsg.isReply, htype, hmembers.2]))
    · split at hmembers
      case isTrue htype => exact .inr (.inr (by simp [WireMsg.isReply, htype, hmembers]))
      · cases hmembers

theorem Ledger.handleRouted (h : Ledger base b [] []) (env : Env) (hc : b.pendingOf c.id = some c.pendingFds)
    (u : Bytes) (hforward : wireForwardable env.lib raw w = true)
    (hfree : w.type = typeMethodCall → ∀ dest, w.destination = some dest →
      routeResolve b.names b.conns (some dest) = none → b.Holds env dest → n = 0) :
    Ledger base (b.handleRouted env c u w raw n) [] [] := by
  unfold Broker.handleRouted
  dsimp only
  generalize hr : routeTargets w c b.names b.conns b.policy b.replies env.now = r
  have hreplies : Ledger base { b with replies := r.replies } [] [] := h.same rfl rfl rfl rfl rfl
  split
  · exact hreplies.refuse env ..
  · split
    case isTrue herror =>
      rw [← hr] at herror
      obtain ⟨hreply, hsignal, hresolve⟩ := routeTargets_synthError herror
      have hcall : w.type = typeMethodCall := by
        rcases type_of_forwardable hforward with hcall | hcall | hcall
        · exact hcall
        · exact absurd hcall hsignal
        · rw [hreply] at hcall
          cases hcall
      have hhold := hreplies.activateOrHold env c w raw fun dest hdest hholds =>
        hfree hcall dest hdest (hdest ▸ hresolve) hholds
      split
      case h_1 b' hb' =>
        rw [hb'] at hhold
        exact hhold.finishMessage _ _
      case h_2 b' hb' =>
        rw [hb'] at hhold
        exact hhold.refuse env ..
    · obtain ⟨c', hc', hpending⟩ := map_eq_some_iff.mp hc
      have hmem : c' ∈ b.conns := mem_of_lookup hc'
      have hlen : (c.pendingFds.take n).length ≤ maxPendingFds := by
        rw [← hpending]
        exact (length_take_le' _ _).trans (h.room c' hmem)
      have hopen : ({ b with replies := r.replies } : Broker).AllOpen (c.pendingFds.take n) := by
        rw [← hpending]
        exact h.allOpen (count_pending_le hmem _ (take_sublist n _))
      have hrelay := hreplies.relayAll hlen hopen (fun dst => !dst.isMonitor) (sdbusWireReforward raw w u) n r.targets
      have hdrain := hrelay.talk (talk_drainScratch _ c.id)
      have hstill : (({ b with replies := r.replies }.relayAll (fun dst => !dst.isMonitor)
        (sdbusWireReforward raw w u) n
          (c.pendingFds.take n) r.targets).drainScratch c.id).pendingOf c.id = some c.pendingFds := by
        rw [pendingOf_talk (talk_drainScratch _ c.id), pendingOf_relayAll]
        exact hc
      unfold Broker.finishMessage
      generalize ({ b with replies := r.replies }.relayAll (fun dst => !dst.isMonitor) (sdbusWireReforward raw w u) n
          (c.pendingFds.take n) r.targets).drainScratch c.id = b₂ at hdrain hstill ⊢
      obtain ⟨c₂, hc₂, hpending₂⟩ := map_eq_some_iff.mp hstill
      cases hany : (r.targets.head?.bind (conn? { b with replies := r.replies })).any (fun dst => !dst.isMonitor) with
      | false =>
        rw [hany] at hdrain
        rw [Bool.and_false]
        exact hdrain.consumeMsgFds _ _
      | true =>
        rw [hany, if_pos rfl, ← hpending₂] at hdrain
        rw [Bool.and_true]
        by_cases hn : 0 < n
        · rw [decide_eq_true hn]
          exact hdrain.consumeHanded hc₂
        · obtain rfl : n = 0 := by omega
          exact Ledger.consumeMsgFds hdrain _ _

/-! ## Messages -/

theorem Ledger.handleDriver (h : Ledger base b [] []) (env : Env) (c : Conn) (w : WireMsg) (raw : Bytes) (n : Nat) :
    Ledger base (b.handleDriver env c w raw n) [] [] := by
  unfold Broker.handleDriver
  split
  · exact (h.work (calm_startServiceByName env b c w raw).work).finishMessage _ _
  · split
    · have hanswer := h.talk (talk_monitorAnswer env b c w raw)
      unfold becomeMonitor
      split
      case h_1 b' hb' =>
        rw [hb'] at hanswer
        exact hanswer.finishMessage _ _
      case h_2 b' rules hb' =>
        rw [hb'] at hanswer
        exact (hanswer.finishMessage _ _).work (work_turnMonitor env ..)
    · split
      · exact (h.work (calm_configCall env b c w raw).work).finishMessage _ _
      · exact (h.work (plain_driverCall env b c w raw).work).finishMessage _ _

theorem routeResolve_face (names : Names) (all : List Conn) (dest : Option Bytes) :
    routeResolve names (all.map Conn.face) dest = routeResolve names all dest := by
  cases dest with
  | none => rfl
  | some d =>
    have hfind : (all.map Conn.face).find? (fun c => c.unique = some d) =
        (all.find? (fun c => c.unique = some d)).map Conn.face := by
      rw [find?_map]
      rfl
    simp only [routeResolve, hfind]
    cases all.find? (fun c => c.unique = some d) <;> rfl

theorem Steady.routeResolve (h : Steady b b') (dest : Option Bytes) :
    routeResolve b'.names b'.conns dest = routeResolve b.names b.conns dest := by
  rw [← routeResolve_face, h.faces, routeResolve_face, h.names]

theorem Steady.holds (h : Steady b b') (env : Env) (dest : Bytes) : b'.Holds env dest ↔ b.Holds env dest := by
  unfold Holds beginActivation
  rw [h.svctab, h.acts]

def PutsOnHold (b : Broker) (env : Env) (w : WireMsg) : Prop :=
  0 < sdbusWireNFds w ∧ w.type = typeMethodCall ∧
    ∃ dest ∈ w.destination, routeResolve b.names b.conns (some dest) = none ∧ b.Holds env dest

theorem Ledger.handleMessage (h : Ledger base b [] []) (env : Env) (id : ConnId) (w : WireMsg) (raw : Bytes)
    (hfree : ¬ b.PutsOnHold env w) : Ledger base (b.handleMessage env id w raw) [] [] := by
  unfold Broker.handleMessage
  cases hc : b.conn? id with
  | none => exact h
  | some c =>
    have hid : c.id = id := key_of_lookup hc
    dsimp only
    split
    · exact ((h.talk (talk_synthErrorWire env b ..)).dropPending id).talk (talk_drainScratch _ id)
    case isFalse hcount =>
      split
      · exact h.consumeMsgFds _ _
      · have htalk := talk_monitorInbound b c w raw (sdbusWireNFds w).toNat
        have hinbound := h.talk htalk
        split
        · exact hinbound.handleDriver env c w raw _
        · split
          · exact hinbound.refuse env ..
          case h_2 u hu =>
            split
            · exact hinbound.refuse env ..
            case isFalse hforward =>
              refine hinbound.handleRouted env ?_ u (by simpa using hforward) ?_
              · rw [pendingOf_talk htalk, hid, pendingOf, hc]
                rfl
              · intro hcall dest hdest hresolve hholds
                rw [htalk.steady.routeResolve] at hresolve
                rw [htalk.steady.holds] at hholds
                by_contra hn
                exact hfree ⟨by omega, hcall, dest, hdest, hresolve, hholds⟩

/-- The message to deliver has descriptors and a destination to be started.  (That includes the few
that are refused before they are held.) -/
def HoldsFds (b : Broker) (i : Input) : Prop :=
  match i.event with
  | .deliver id => ∃ m ∈ b.nextMsg id, b.PutsOnHold i.env m.2
  | _ => False

instance (b : Broker) (env : Env) (dest : Bytes) : Decidable (b.Holds env dest) :=
  inferInstanceAs (Decidable (_ ∧ _))

instance (b : Broker) (env : Env) (w : WireMsg) : Decidable (b.PutsOnHold env w) :=
  inferInstanceAs (Decidable (_ ∧ _ ∧ ∃ dest ∈ w.destination,
    routeResolve b.names b.conns (some dest) = none ∧ b.Holds env dest))

instance (b : Broker) (i : Input) : Decidable (b.HoldsFds i) := by
  unfold HoldsFds
  obtain ⟨env, event⟩ := i
  cases event <;> infer_instance

theorem Ledger.deliver (h : Ledger base b [] []) {id : ConnId} (hi : i.event = .deliver id)
    (hfree : ¬ b.HoldsFds i) : Ledger base (b.deliver i.env id) [] [] := by
  unfold Broker.deliver
  cases hc : b.conn? id with
  | none => exact h
  | some c =>
    dsimp only
    split
    · exact h
    · cases hw : sdbusWireParse c.inBuf with
      | incomplete => exact h
      | corrupt => exact (h.dropPending id).record id (fun _ => rfl)
      | complete w =>
        refine (h.handleMessage i.env id w _ fun hputs => hfree ?_).record id (fun _ => rfl)
        have hnext : b.nextMsg id = some (c, w) := by simp [nextMsg, hc, hw]
        simp only [HoldsFds, hi]
        exact ⟨(c, w), hnext, hputs⟩

/-! ## Connections come and go -/

theorem Ledger.addConn (h : Ledger base b [] []) (hfresh : ∀ id ∈ b.ids, id < b.nextId) (creds : Creds) :
    Ledger base (b.addConn creds) [] [] := by
  have ho := opens_openFd b
  have hopened := h.opened ho
  have hnext := (steady_openFd b).nextId
  unfold Broker.addConn
  dsimp only
  split
  case isTrue hneg =>
    have hdrop : [b.openFd.2].filter (fun x => decide (0 ≤ x)) = [] := by simp [hneg]
    rwa [hdrop] at hopened
  case isFalse hpos =>
    have hkeep : [b.openFd.2].filter (fun x => decide (0 ≤ x)) = [b.openFd.2] := by simp; omega
    have hopen := ho.allOpen
    rw [hkeep] at hopened hopen
    split
    · have hcount : Ledger base { b.openFd.1 with nextId := b.openFd.1.nextId + 1 } ([b.openFd.2] ++ []) [] :=
        hopened.same rfl rfl rfl rfl rfl
      exact hcount.closeHand hopen
    · refine ⟨fun fd => ?_, hopened.clean, ?_, ?_, ?_, hopened.noneHeld⟩
      · have := hopened.balance fd
        rw [count_slots] at this ⊢
        simp only [map_append, map_cons, map_nil, sum_append, sum_cons, sum_nil,
          Conn.slots, Conn.new, flatMap_nil, append_nil, count_nil] at this ⊢
        omega
      · show ((b.openFd.1.conns ++ [_]).map Conn.id).Nodup
        rw [map_append, map_singleton, ho.conns]
        refine nodup_append.mpr ⟨h.nodup, nodup_singleton _, ?_⟩
        intro a ha x hx hax
        have hlt := hfresh a ha
        have hxid : x = b.openFd.1.nextId := mem_singleton.mp hx
        rw [hax, hxid, hnext] at hlt
        exact Nat.lt_irrefl _ hlt
      · intro c hc
        rcases mem_append.mp hc with hc | hc
        · exact hopened.room c hc
        · rw [mem_singleton.mp hc]
          exact Nat.zero_le _
      · intro c hc
        rcases mem_append.mp hc with hc | hc
        · exact hopened.unsent c hc
        · rw [mem_singleton.mp hc]
          intro k hk
          cases hk

theorem closeFds_append (b : Broker) (fds fds' : List Int) :
    b.closeFds (fds ++ fds') = (b.closeFds fds).closeFds fds' :=
  foldl_append

theorem Ledger.freeConn (h : Ledger base b [] []) (hc : b.conn? c.id = some c) : Ledger base (b.freeConn c) [] [] := by
  have hmem := mem_of_lookup hc
  have hsame : ∀ fd, (c.pendingFds ++ ([c.fd] ++ c.oq.flatMap OutChunk.fds)).count fd = c.slots.count fd := by
    intro fd
    simp only [Conn.slots, count_append, count_cons, count_nil]
    omega
  have hopen : b.AllOpen (c.pendingFds ++ ([c.fd] ++ c.oq.flatMap OutChunk.fds)) := by
    refine h.allOpen fun fd => ?_
    rw [hsame]
    exact count_le_slots hmem fd
  have hclosed := h.closeAll hopen
  rw [closeFds_append, closeFds_append] at hclosed
  have hfree : (b.freeConn c).conns = swapOut Conn.id c.id b.conns := by
    simp [Broker.freeConn, without]
  have hconns : (((b.closeFds c.pendingFds).closeFds [c.fd]).closeFds (c.oq.flatMap OutChunk.fds)).conns = b.conns := by
    simp
  have hperm := swapOut_perm h.nodup hc
  refine ⟨fun fd => ?_, hclosed.clean, ?_, fun x hx => ?_, fun x hx => ?_, hclosed.noneHeld⟩
  · have hbalance := hclosed.balance fd
    have hsum := (hperm.map (fun c => c.slots.count fd)).sum_eq
    have hcount := hsame fd
    rw [count_slots, hconns] at hbalance
    rw [count_slots, hfree]
    simp only [map_cons, sum_cons, append_nil] at hsum hbalance
    rw [hcount] at hbalance
    show _ + _ + opens base fd =
      opens (((b.closeFds c.pendingFds).closeFds [c.fd]).closeFds (c.oq.flatMap OutChunk.fds)).table fd + 0
    have hheld : (((allHeld (b.freeConn c).acts).flatMap HeldMsg.fds).count fd +
      (b.freeConn c).reportFd.toList.count fd) =
        (((allHeld (((b.closeFds c.pendingFds).closeFds [c.fd]).closeFds
          (c.oq.flatMap OutChunk.fds)).acts).flatMap HeldMsg.fds).count fd +
          (((b.closeFds c.pendingFds).closeFds [c.fd]).closeFds
            (c.oq.flatMap OutChunk.fds)).reportFd.toList.count fd) :=
      rfl
    rw [hheld]
    simp only [count_nil] at hbalance ⊢
    omega
  · show ((b.freeConn c).conns.map Conn.id).Nodup
    rw [hfree]
    exact nodup_map_swapOut h.nodup
  · rw [hfree] at hx
    exact h.room x (hperm.subset (mem_cons_of_mem _ hx))
  · rw [hfree] at hx
    exact h.unsent x (hperm.subset (mem_cons_of_mem _ hx))

theorem Ledger.removeConn (h : Ledger base b [] []) (env : Env) (id : ConnId) :
    Ledger base (b.removeConn env id) [] [] := by
  cases hc : b.conn? id with
  | none => rwa [removeConn_of_none env b id hc]
  | some c =>
    obtain ⟨n, b₁, htalk, heq⟩ := removeConn_steps env b id hc
    have hmon : Ledger base { b with nmonitors := n } [] [] := h.same rfl rfl rfl rfl rfl
    have hgone := (hmon.work (plain_dropNames env _ id).work).talk htalk
    have h₃ : Ledger base { b₁ with replies := repliesPurge b₁.replies id } [] [] := hgone.same rfl rfl rfl rfl rfl
    rw [heq]
    dsimp only
    split
    · exact h₃
    case h_2 c' hc' =>
      have hid : c'.id = id := key_of_lookup hc'
      exact h₃.freeConn (hid ▸ hc')

/-! ## Input and output -/

theorem Ledger.takeFds (h : Ledger base b [] []) (hc : b.conn? c.id = some c) (n : Nat) :
    Ledger base (b.takeFds c n) [] [] := by
  have ho := opens_openFds b n
  have hopened := h.opened ho
  have hc' : (b.openFds n).1.conn? c.id = some c := by rw [conn?, ho.conns]; exact hc
  have hmem := mem_of_lookup hc'
  have hroom := hopened.room c hmem
  have hallOpen := ho.allOpen
  unfold Broker.takeFds
  dsimp only
  generalize (b.openFds n).1 = b₁ at *
  generalize (b.openFds n).2 = fds at *
  generalize hfit : maxPendingFds - c.pendingFds.length = fit
  have hsplit : Ledger base b₁ (fds.take fit ++ (fds.drop fit ++ [])) [] := by
    rw [← append_assoc, take_append_drop]
    exact hopened
  have hstored : Ledger base
      (b₁.modConn c.id (fun c => { c with pendingFds := c.pendingFds ++ fds.take fit }))
        ([] ++ (fds.drop fit ++ [])) [] := by
    refine Ledger.modConn (fds.take fit) [] hsplit hc' rfl (fun fd => ?_) ?_ ?_
    · simp only [Conn.slots, count_cons, count_append, count_nil]
      omega
    · rw [length_append, length_take]
      omega
    · exact hopened.unsent c hmem
  rw [nil_append] at hstored
  refine hstored.closeHand fun fd => ?_
  have hle := hallOpen fd
  have hcount := congrArg (List.count fd) (take_append_drop fit fds)
  rw [count_append] at hcount
  show (fds.drop fit).count fd ≤ opens b₁.table fd
  omega

theorem holdings_authFeed (guid : Bytes) (c : Conn) (data : Bytes) :
    (authFeed guid c data).1.holdings = c.holdings := by
  have hunshaken := unshaken_authFeed guid c data
  generalize (authFeed guid c data).1 = c' at hunshaken ⊢
  cases c
  cases c'
  simp_all [Conn.unshaken, Conn.holdings]

theorem Ledger.takeBytes (h : Ledger base b [] []) (env : Env) (id : ConnId) (data : Bytes) :
    Ledger base (b.takeBytes env id data) [] [] := by
  unfold Broker.takeBytes
  cases hc : b.conn? id with
  | none => exact h
  | some c =>
    dsimp only
    split
    · have happend : Ledger base (b.modConn id (fun c => c.inAppend data)) [] [] := by
        refine h.record id fun c => ?_
        unfold Conn.inAppend
        split <;> rfl
      split
      · exact happend.removeConn env id
      · exact happend
    · have hshake := (h.setConn hc (holdings_authFeed env.guid c data)).talk (talk_drainScratch _ id)
      split
      · exact hshake.removeConn env id
      · exact hshake

theorem Ledger.receive (h : Ledger base b [] []) (env : Env) (id : ConnId) (data : Bytes) (n : Nat) :
    Ledger base (b.receive env id data n) [] [] := by
  unfold Broker.receive
  cases hc : b.conn? id with
  | none => exact h
  | some c =>
    have hid : c.id = id := key_of_lookup hc
    exact (h.takeFds (hid ▸ hc) n).takeBytes env id _

end Broker

theorem Conn.flush_slots (answers : List SendResult) (h : c.Unsent) (closed : List Int) :
    (c.flush answers closed).1.Unsent ∧ (c.flush answers closed).1.id = c.id ∧
      (c.flush answers closed).1.pendingFds = c.pendingFds ∧
      ∀ fd, (c.flush answers closed).1.slots.count fd + (c.flush answers closed).2.1.count fd =
        c.slots.count fd + closed.count fd := by
  induction answers generalizing c closed with
  | nil =>
    unfold Conn.flush
    cases hoq : c.oq with
    | nil =>
      refine ⟨?_, rfl, rfl, fun fd => ?_⟩
      · simp [Conn.Unsent]
      · simp [Conn.slots, hoq]
    | cons chunk rest => exact ⟨h, rfl, rfl, fun _ => rfl⟩
  | cons a answers ih =>
    unfold Conn.flush
    cases hoq : c.oq with
    | nil =>
      refine ⟨?_, rfl, rfl, fun fd => ?_⟩
      · simp [Conn.Unsent]
      · simp [Conn.slots, hoq]
    | cons chunk rest =>
      cases a with
      | again => exact ⟨h, rfl, rfl, fun _ => rfl⟩
      | broken => exact ⟨h, rfl, rfl, fun _ => rfl⟩
      | sent n =>
        have hchunk : chunk.off ≠ 0 → chunk.fds = [] := h chunk (hoq ▸ mem_cons_self)
        have hrest : ∀ k ∈ rest, k.off ≠ 0 → k.fds = [] := fun k hk => h k (hoq ▸ mem_cons_of_mem _ hk)
        -- the descriptors of the chunk are closed with its first bytes, or are gone already
        have hgone : ∀ fd, (if chunk.off = 0 then closed ++ chunk.fds else closed).count fd =
            closed.count fd + chunk.fds.count fd := by
          intro fd
          split
          · rw [count_append]
          case isFalse hoff => simp [hchunk hoff]
        dsimp only
        split
        · obtain ⟨hunsent, hid, hpending, hcount⟩ := ih (c := { c with
            oq := rest, oqBytes := c.oqBytes - (min n (chunk.b.length - chunk.off) : Nat) - sizeofOutchunk }) hrest
            (if chunk.off = 0 then closed ++ chunk.fds else closed)
          refine ⟨hunsent, hid, hpending, fun fd => ?_⟩
          rw [hcount, hgone]
          simp only [Conn.slots, hoq, flatMap_cons, count_cons, count_append]
          omega
        · have hleft : (if chunk.off = 0 then [] else chunk.fds) = [] := by
            split
            · rfl
            case isFalse hoff => exact hchunk hoff
          refine ⟨?_, rfl, rfl, fun fd => ?_⟩
          · intro k hk hoff
            rcases mem_cons.mp hk with rfl | hk
            · exact hleft
            · exact hrest k hk hoff
          · simp only [hgone, hleft, Conn.slots, hoq, flatMap_cons, count_cons, count_append, nil_append]
            omega

namespace Broker

variable {base : FdTable Nat} {b b' : Broker} {hand twice fds : List Int}

theorem Ledger.writable (h : Ledger base b [] []) (env : Env) (id : ConnId) (answers : List SendResult) :
    Ledger base (b.writable env id answers) [] [] := by
  unfold Broker.writable
  cases hc : b.conn? id with
  | none => exact h
  | some c =>
    have hmem := mem_of_lookup hc
    obtain ⟨hunsent, hid, hpending, hcount⟩ := Conn.flush_slots answers (h.unsent c hmem) []
    have hroom : (c.flush answers []).1.pendingFds.length ≤ maxPendingFds := by
      rw [hpending]
      exact h.room c hmem
    have hflush : Ledger base (b.modConn id (fun _ => (c.flush answers []).1)) ((c.flush answers []).2.1 ++ []) [] :=
      Ledger.modConn [] _ h hc hid hcount hroom hunsent
    have hclosed : Ledger base ((b.modConn id (fun _ => (c.flush answers []).1)).closeFds (c.flush answers []).2.1)
        [] [] := by
      refine hflush.closeHand ?_
      refine hflush.allOpen fun fd => ?_
      rw [append_nil]
      exact Nat.le_add_left _ _
    dsimp only
    split
    · exact hclosed
    · exact hclosed.removeConn env id

/-! ## Runs -/

theorem Ledger.step (h : Ledger base b [] []) (hfresh : ∀ id ∈ b.ids, id < b.nextId)
    (hfree : ¬ b.HoldsFds i) : Ledger base (Dbus.step b i) [] [] := by
  unfold Dbus.step
  cases hi : i.event with
  | accept creds =>
    dsimp only
    split
    · exact h
    · exact h.addConn hfresh creds
  | receive id data n =>
    dsimp only
    split
    · exact h
    · exact h.receive i.env id data n
  | deliver id => exact h.deliver hi hfree
  | writable id answers => exact h.writable i.env id answers
  | hangup id => exact h.removeConn i.env id
  | expireReplies => exact h.work (quiet_expireReplies i.env b).calm.work
  | expireAct => exact h.work (quiet_expireAct i.env b).calm.work
  | childExit pid => exact h.work (quiet_childExit i.env b pid).calm.work
  | sweep =>
    dsimp only [sweep]
    split
    · exact h
    · exact h.removeConn i.env _
  | reportFlush => exact h.talk (talk_reportFlush i.env b)
  | reload =>
    dsimp only
    split
    · exact h
    · exact h.work (calm_reloadRequest i.env b none).work
  | dissolved outcome => exact h.work (calm_reloadReaped i.env b outcome).work
  | reloadTimeout => exact h.work (calm_reloadCheckTimeout i.env b).work
  | terminate => exact h.same rfl rfl rfl rfl rfl
  | abort =>
    dsimp only
    split
    · exact h.work ((calm_reloadAbort i.env b).trans (quiet_failActs i.env _).calm).work
    · exact h

theorem ledger_start (k : Config) : Ledger k.table (start k) [] [] where
  balance := fun _ => Nat.zero_add _
  clean := rfl
  nodup := nodup_nil
  room := fun _ h => (nomatch h)
  unsent := fun _ h => (nomatch h)
  noneHeld := fun _ h => (nomatch h)

/-- The descriptors are accounted for: every number in a slot is open and stands
in no other, every open number that was not open at the start stands in one,
and no number was closed that was not open. -/
structure Accounted (base : FdTable Nat) (b : Broker) : Prop where
  stored : ∀ fd ∈ b.slots, (b.table.get fd).isSome ∧ b.slots.count fd = 1
  kept : ∀ fd, (b.table.get fd).isSome → fd ∈ b.slots ∨ (base.get fd).isSome
  clean : b.badCloses = []

theorem Ledger.accounted (h : Ledger base b [] []) : Accounted base b := by
  have hle : ∀ (t : FdTable Nat) fd, opens t fd ≤ 1 := by
    intro t fd
    unfold opens
    split <;> omega
  have hopen : ∀ (t : FdTable Nat) fd, opens t fd = 1 ↔ (t.get fd).isSome := by
    intro t fd
    unfold opens
    split <;> simp_all
  refine ⟨fun fd hfd => ?_, fun fd hfd => ?_, h.clean⟩
  · have hpos := count_pos_iff.mpr hfd
    have hbalance := h.balance fd
    have hone := hle b.table fd
    simp only [count_nil] at hbalance
    rw [← hopen]
    omega
  · have hbalance := h.balance fd
    rw [← hopen] at hfd
    simp only [count_nil] at hbalance
    by_cases hbase : (base.get fd).isSome
    · exact .inr hbase
    · have hzero : opens base fd = 0 := if_neg hbase
      exact .inl (count_pos_iff.mp (by omega))

/-- In every run in which no message with descriptors is put on hold, the
descriptors are accounted for in every state reached. -/
theorem descriptors_accounted {k : Config} {b : Broker}
    (h : Run.Reaches Dbus.step (fun b i => ¬ b.HoldsFds i) (start k) b) : Accounted k.table b := by
  have hinv : b.bus.Live ∧ Ledger k.table b [] [] := by
    refine h.invariant (fun b => b.bus.Live ∧ Ledger k.table b [] []) ⟨live_start k, ledger_start k⟩
      fun u i hu hfree => ⟨live_step hu.1 i, hu.2.step (fun id hid => ?_) hfree⟩
    exact hu.1.fresh id (by rwa [ids_bus])
  exact hinv.2.accounted

def handedOn : List Input :=
  joins 1 ++ joins 2 ++ sends 1 (clientBytes (fdCall ":1.2" 1) []) 1 ++
    [⟨stubEnv, .writable 2 [.sent 1000, .sent 1000, .sent 1000, .sent 1000]⟩]

theorem handedOn_accounted : Accounted serviceConfig.table (handedOn.foldl Dbus.step (start serviceConfig)) :=
  descriptors_accounted (Run.AllOk.reaches (by decide +kernel :
    Run.AllOk Dbus.step (fun b i => ¬ b.HoldsFds i) (start serviceConfig) handedOn))

def putOnHold : List Input :=
  joins 1 ++ sends 1 (clientBytes (fdCall "a.b" 1) []) 1

/-- The held message names a descriptor that is not open. -/
theorem putOnHold_unaccounted : Reachable serviceConfig (putOnHold.foldl Dbus.step (start serviceConfig)) ∧
      (∃ m ∈ allHeld (putOnHold.foldl Dbus.step (start serviceConfig)).acts, ∃ fd ∈ m.fds,
        (putOnHold.foldl Dbus.step (start serviceConfig)).table.get fd = none) ∧
      ¬ Accounted serviceConfig.table (putOnHold.foldl Dbus.step (start serviceConfig)) := by
  have hheld : ∃ m ∈ allHeld (putOnHold.foldl Dbus.step (start serviceConfig)).acts, ∃ fd ∈ m.fds,
      (putOnHold.foldl Dbus.step (start serviceConfig)).table.get fd = none := by decide +kernel
  refine ⟨reachable_foldl serviceConfig putOnHold, hheld, fun h => ?_⟩
  obtain ⟨m, hm, fd, hfd, hclosed⟩ := hheld
  generalize putOnHold.foldl Dbus.step (start serviceConfig) = b at h hm hclosed
  have hslot : fd ∈ b.slots := by
    refine mem_append_right _ (mem_append_left _ ?_)
    exact mem_flatMap.mpr ⟨m, hm, hfd⟩
  have hopen := (h.stored fd hslot).1
  rw [hclosed] at hopen
  cases hopen

end Broker

end SchemaInit.Dbus
