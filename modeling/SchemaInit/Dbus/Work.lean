/-
# `SchemaInit.Dbus.Work` — what the broker does between arrivals and departures

The next layers over `Talk` are `Calm` and `Work`.  Every function of the broker
that neither moves descriptors of messages nor makes or removes a connection is
`Work`, and is shown to be once.  An invariant is then checked against the constructors.
-/
import SchemaInit.Dbus.Talk

namespace SchemaInit.Dbus

open List Relation
open ReflTransGen (mono refl single)

def allHeld (a : Acts) : List HeldMsg :=
  a.flatMap PendingAct.held

namespace Broker

variable (env : Env) (b : Broker) (id : ConnId) (c : Conn) (w : WireMsg) (raw : Bytes) (call : DriverCall)
    (name : Bytes)

/-- One change that leaves the bus and the reload alone, and starts no activation. -/
inductive Quiet1 : Broker → Broker → Prop
  | talk {b b' : Broker} (h : Talk1 b b') : Quiet1 b b'
  | replies (b : Broker) (replies : Replies) : Quiet1 b { b with replies := replies }
  | release (b : Broker) (env : Env) (name : Bytes) : Quiet1 b (b.releaseActivation env name)
  | fail (b : Broker) (env : Env) (acts : Acts) (held : List HeldMsg) (name text : Bytes)
      (h : (allHeld acts ++ held).Perm (allHeld b.acts)) :
      Quiet1 b ({ b with acts := acts }.failHeld env held name text)

/-- One such change, or one that still leaves the bus alone. -/
inductive Calm1 : Broker → Broker → Prop
  | quiet {b b' : Broker} (h : Quiet1 b b') : Calm1 b b'
  | field (b : Broker) (replies : Replies) (policy : Policy) (svctab : List SvcEnt) (nmonitors : Int) (draining : Bool)
      (actenv : List Bytes) (reload : Reload) :
      Calm1 b
        { b with
          replies := replies, policy := policy, svctab := svctab, nmonitors := nmonitors, draining := draining,
          actenv := actenv, reload := reload }
  | await (b : Broker) (env : Env) (target : Bytes) (acts : Acts) (i : Nat) (caller : ConnId) (serial : Nat)
      (h : b.beginActivation env target = some (acts, i)) :
      Calm1 b { b with acts := actsHold acts i (startRequest caller serial) }

/-- One change of the kind `R`, or of the registry, the log or a connection's own record. -/
inductive Own1 (R : Broker → Broker → Prop) : Broker → Broker → Prop
  | other {b b' : Broker} (h : R b b') : Own1 R b b'
  | registry (b : Broker) (names : Names) (log : List OwnerChange) : Own1 R b { b with names := names, ownerLog := log }
  | record (b : Broker) (id : ConnId) (f : Conn → Conn) (hid : ∀ c, (f c).id = c.id) (hfd : ∀ c, (f c).fd = c.fd)
      (hpending : ∀ c, (f c).pendingFds = c.pendingFds) (hoq : ∀ c, (f c).oq = c.oq) : Own1 R b (b.modConn id f)

def Quiet : Broker → Broker → Prop := ReflTransGen Quiet1

/-- Talk, and what else leaves the bus as clients see it: the other tables change, a call waits for
a service, what waited is released or fails. -/
def Calm : Broker → Broker → Prop := ReflTransGen Calm1

def Plain : Broker → Broker → Prop := ReflTransGen (Own1 Quiet1)

/-- With what clients do see: the registry and the connections' own records. -/
def Work : Broker → Broker → Prop := ReflTransGen (Own1 Calm1)

section

variable {b b' : Broker}

theorem Calm.trans {b'' : Broker} (h : Calm b b') (h' : Calm b' b'') : Calm b b'' :=
  ReflTransGen.trans h h'

theorem Quiet1.quiet (h : Quiet1 b b') : Quiet b b' := single h

theorem Calm1.calm (h : Calm1 b b') : Calm b b' := single h

theorem Own1.plain (h : Own1 Quiet1 b b') : Plain b b' := single h

theorem Own1.work (h : Own1 Calm1 b b') : Work b b' := single h

theorem Talk.quiet (h : Talk b b') : Quiet b b' :=
  mono (fun _ _ => Quiet1.talk) _ _ h

theorem Quiet.calm (h : Quiet b b') : Calm b b' :=
  mono (fun _ _ => Calm1.quiet) _ _ h

theorem Talk.calm (h : Talk b b') : Calm b b' := h.quiet.calm

theorem Quiet.plain (h : Quiet b b') : Plain b b' :=
  mono (fun _ _ => Own1.other) _ _ h

theorem Talk.plain (h : Talk b b') : Plain b b' := h.quiet.plain

theorem Calm.work (h : Calm b b') : Work b b' :=
  mono (fun _ _ => Own1.other) _ _ h

theorem Talk.work (h : Talk b b') : Work b b' := h.calm.work

theorem Plain.work (h : Plain b b') : Work b b' := by
  refine mono (fun _ _ h => ?_) _ _ h
  cases h with
  | other h => exact .other (.quiet h)
  | registry names log => exact .registry _ names log
  | record id f hid hfd hpending hoq => exact .record _ id f hid hfd hpending hoq

end

theorem Plain.foldl {α : Type} {f : Broker → α → Broker} (h : ∀ b x, Plain b (f b x)) (b : Broker) (l : List α) :
    Plain b (l.foldl f b) :=
  l.foldlRecOn f .refl fun u hu x _ => hu.trans (h u x)

/-! ## Activations -/

theorem allHeld_actsPop {a : Acts} {i : Nat} (h : i < a.length) :
    (allHeld (actsPop a i).1 ++ (actsPop a i).2).Perm (allHeld a) := by
  have hperm := (KeyedList.swapRemove_perm h).flatMap_right PendingAct.held
  rw [flatMap_cons] at hperm
  have hheld : (actsPop a i).2 = a[i].held := by simp [actsPop, h]
  rw [hheld]
  exact perm_append_comm.trans hperm

theorem mem_allHeld_actsHold {a : Acts} {i : Nat} {m m' : HeldMsg} (h : m' ∈ allHeld (actsHold a i m)) :
    m' = m ∨ m' ∈ allHeld a := by
  obtain ⟨pa, hpa, hm'⟩ := mem_flatMap.mp h
  obtain ⟨j, hj, rfl⟩ := mem_iff_getElem.mp hpa
  simp only [actsHold, getElem_modify] at hm'
  have hj' : j < a.length := by simpa [actsHold] using hj
  have hold : a[j] ∈ a := getElem_mem hj'
  split at hm'
  · rcases mem_append.mp hm' with hm' | hm'
    · exact .inr (mem_flatMap.mpr ⟨_, hold, hm'⟩)
    · exact .inl (mem_singleton.mp hm')
  · exact .inr (mem_flatMap.mpr ⟨_, hold, hm'⟩)

theorem allHeld_beginActivation {env : Env} {b : Broker} {name : Bytes} {acts : Acts} {i : Nat}
    (h : b.beginActivation env name = some (acts, i)) : allHeld acts = allHeld b.acts := by
  unfold beginActivation at h
  split at h
  · cases h
    rfl
  · split at h
    · cases h
    · cases h
      simp [allHeld, actsBegin]

theorem quiet_expireAct : Quiet b (b.expireAct env) := by
  unfold expireAct actsReapExpired
  cases hidx : b.acts.findIdx? (fun e => decide (e.deadlineMs ≤ env.now)) with
  | none => exact refl
  | some i =>
    obtain ⟨hlt, _⟩ := findIdx?_eq_some_iff_getElem.mp hidx
    exact (Quiet1.fail b env _ _ _ _ (allHeld_actsPop hlt)).quiet

theorem quiet_childExit (pid : Int) : Quiet b (b.childExit env pid) := by
  unfold childExit actsTake actsFind
  split
  · exact refl
  case h_2 pa _ =>
    cases hidx : b.acts.findIdx? (fun e => e.name = pa.name) with
    | none => exact refl
    | some i =>
      obtain ⟨hlt, _⟩ := findIdx?_eq_some_iff_getElem.mp hidx
      exact (Quiet1.fail b env _ _ _ _ (allHeld_actsPop hlt)).quiet

theorem quiet_failFirst : Quiet b (b.failFirst env) := by
  refine (Quiet1.fail b env _ _ _ _ ?_).quiet
  by_cases hlt : 0 < b.acts.length
  · exact allHeld_actsPop hlt
  · rw [length_pos_iff, not_not] at hlt
    rw [hlt]
    rfl

theorem quiet_failActs : Quiet b (b.failActs env) := by
  unfold failActs
  generalize b.acts.length = n
  induction n with
  | zero => exact refl
  | succ n ih => exact ih.trans (quiet_failFirst env _)

theorem calm_startServiceByName : Calm b (b.startServiceByName env c w raw) := by
  unfold startServiceByName
  split
  · exact (talk_synthErrorWire env b ..).calm
  · split
    · exact (talk_enqueueReply env b ..).calm
    · split
      · exact (talk_synthErrorWire env b ..).calm
      · split
        · exact (talk_synthErrorWire env b ..).calm
        case h_2 acts i hbegin => exact (Calm1.await b env _ acts i c.id w.serial hbegin).calm

/-! ## Reloads -/

theorem calm_reloadBegin : Calm b (b.reloadBegin env).1 := by
  unfold reloadBegin
  dsimp only
  split
  · exact (Calm1.field b ..).calm
  · split
    · exact (Calm1.field b ..).calm
    · split
      · exact (Calm1.field b ..).calm
      · exact (Calm1.field b ..).calm

theorem calm_reloadSettle (pol : Option Policy) (err : Option Bytes) : Calm b (b.reloadSettle env pol err) := by
  have hswap : Calm b (b.reloadSwap pol (b.reloadVerdict pol err)) := by
    unfold reloadSwap
    split
    · exact .refl
    · exact (Calm1.field b ..).calm
  unfold reloadSettle
  exact hswap.trans ((Calm1.field ..).calm.trans ((talk_reloadReply env ..).calm.trans (Calm1.field ..).calm))

theorem calm_reloadFinish (rounds : Nat) (b : Broker) (pol : Option Policy) (err : Option Bytes) :
    Calm b (reloadFinish env rounds b pol err) := by
  induction rounds generalizing b pol err with
  | zero => exact calm_reloadSettle env b pol err
  | succ rounds ih =>
    have hsettle := calm_reloadSettle env b pol err
    unfold reloadFinish
    dsimp only
    split
    · have hbegin := calm_reloadBegin env { b.reloadSettle env pol err with
          reload := { (b.reloadSettle env pol err).reload with
            dirty := false, run := (b.reloadSettle env pol err).reload.next, next := [] } }
      have hnext := (hsettle.trans (Calm1.field ..).calm).trans hbegin
      split
      case h_1 b' hb' => rwa [hb'] at hnext
      case h_2 b' err' hb' =>
        rw [hb'] at hnext
        exact hnext.trans (ih ..)
    · exact hsettle

theorem calm_reloadStart : Calm b (b.reloadStart env) := by
  have hbegin := calm_reloadBegin env b
  unfold reloadStart
  split
  case h_1 b' hb' => rwa [hb'] at hbegin
  case h_2 b' err hb' =>
    rw [hb'] at hbegin
    exact hbegin.trans (calm_reloadFinish env 1 ..)

theorem calm_reloadRequest (caller : Option Waiter) : Calm b (b.reloadRequest env caller) := by
  unfold reloadRequest
  split
  · exact (Calm1.field b ..).calm
  · exact (Calm1.field b ..).calm.trans (calm_reloadStart env _)

theorem calm_reloadReaped (outcome : Except Bytes Policy) : Calm b (b.reloadReaped env outcome) := by
  unfold reloadReaped
  split
  · exact .refl
  · cases outcome with
    | ok pol => exact (Calm1.field b ..).calm.trans (calm_reloadFinish env 1 ..)
    | error text => exact (Calm1.field b ..).calm.trans (calm_reloadFinish env 1 ..)

theorem calm_reloadCheckTimeout : Calm b (b.reloadCheckTimeout env) := by
  unfold reloadCheckTimeout
  split
  · exact .refl
  · split
    · exact (Calm1.field b ..).calm.trans (calm_reloadFinish env 1 ..)
    · exact .refl

theorem calm_reloadAbort : Calm b (b.reloadAbort env) := by
  unfold reloadAbort
  exact (Calm1.field b ..).calm.trans ((talk_reloadReply env ..).calm.trans
    ((talk_reloadReply env ..).calm.trans (Calm1.field ..).calm))

theorem calm_configCall : Calm b (b.configCall env c w raw) := by
  unfold configCall
  split
  · exact (talk_synthErrorWire env b ..).calm
  · split
    · unfold reloadConfig
      split
      · exact (talk_replyError env b ..).calm
      · split
        · exact (talk_synthErrorWire env b ..).calm
        · exact calm_reloadRequest env b _
    · split
      · exact (talk_replyError env b ..).calm
      · split
        · exact (talk_replyError env b ..).calm
        · unfold updateEnvironment
          dsimp only
          split
          · exact (Calm1.field b ..).calm.trans (talk_reply env ..).calm
          · exact (Calm1.field b ..).calm.trans (talk_replyError env ..).calm

/-! ## Deadlines -/

theorem quiet_expireReplies : Quiet b (b.expireReplies env) := by
  unfold expireReplies
  exact (Quiet1.replies b _).quiet.trans (Talk.foldl (talk_sendNoReplyTo env _) _ _).quiet

/-! ## Changes of owner -/

theorem plain_announce (k : OwnerChange) (dying : Option ConnId) : Plain b (b.announce env k dying) :=
  (Own1.registry b b.names _).plain.trans (talk_announce env b k dying).plain

theorem quiet_nameAcquired (o : Option ConnId) : Quiet b (b.nameAcquired env name o) := by
  unfold nameAcquired
  split
  · exact refl
  · refine ReflTransGen.trans ?_ (Quiet1.release _ env name).quiet
    split
    · exact refl
    · exact ((talk_enqueueSignal env b ..).trans (talk_reportNameToPid1 env ..)).quiet

theorem plain_broadcastTransitions (ts : List Transition) : Plain b (b.broadcastTransitions env ts) := by
  refine Plain.foldl (fun b t => ?_) b ts
  unfold broadcastTransition
  exact ((plain_announce env b _ _).trans (talk_nameLost env ..).plain).trans (quiet_nameAcquired env ..).plain

theorem plain_dropNames : Plain b (b.dropNames env id) := by
  have hregistry := (Own1.registry b (b.names.disconnect id).1 b.ownerLog).plain
  have hrecord := (Own1.record { b with names := (b.names.disconnect id).1 } id (fun c => { c with unique := none })
    (fun _ => rfl) (fun _ => rfl) (fun _ => rfl) (fun _ => rfl)).plain
  have hdrop := (hregistry.trans hrecord).trans (plain_broadcastTransitions env _ (b.names.disconnect id).2)
  unfold dropNames
  dsimp only
  split
  · exact hdrop
  · exact hdrop.trans (plain_announce env ..)

theorem work_turnMonitor (rules : MatchSet) : Work b (b.turnMonitor env id rules) := by
  unfold turnMonitor
  refine ((talk_ownNameLost env b id).work.trans (plain_dropNames env _ id).work).trans ?_
  exact (Own1.record _ id _ (fun _ => by rfl) (fun _ => by rfl) (fun _ => by rfl) (fun _ => by rfl)).work.trans
    (Calm1.field ..).calm.work

/-! ## Driver methods -/

theorem plain_hello : Plain b (b.hello env id call) := by
  unfold hello
  split
  · exact .refl
  · split
    · exact (Own1.record b id _ (fun _ => by rfl) (fun _ => by rfl) (fun _ => by rfl) (fun _ => by rfl)).plain.trans
        (talk_reply env ..).plain
    · exact (Own1.registry b (b.names.allocUnique id).1 b.ownerLog).plain.trans
        ((Own1.record _ id _ (fun _ => by rfl) (fun _ => by rfl) (fun _ => by rfl) (fun _ => by rfl)).plain.trans
          (talk_reply env ..).plain)

theorem plain_requestName (flags : Nat) : Plain b (b.requestName env c call name flags) := by
  unfold requestName
  split
  · exact (talk_invalidArgs env b ..).plain
  · split
    · exact (talk_replyError env b ..).plain
    · split
      · exact (talk_replyError env b ..).plain
      · exact (Own1.registry b _ b.ownerLog).plain.trans
          ((plain_broadcastTransitions env _ _).trans (talk_reply env ..).plain)

theorem plain_releaseName : Plain b (b.releaseName env c call name) := by
  unfold releaseName
  exact (Own1.registry b _ b.ownerLog).plain.trans
    ((plain_broadcastTransitions env _ _).trans (talk_reply env ..).plain)

theorem plain_setRules (rules : MatchSet) : Plain b (b.setRules id rules) :=
  (Own1.record b id (fun c => { c with rules := some rules }) (fun _ => rfl) (fun _ => rfl) (fun _ => rfl)
    (fun _ => rfl)).plain

theorem plain_addMatch (rule : Bytes) : Plain b (b.addMatch env c call rule) := by
  unfold addMatch
  dsimp only
  split
  · exact (plain_setRules b _ _).trans (talk_replyError env ..).plain
  · split
    · exact (plain_setRules b _ _).trans (talk_replyError env ..).plain
    · exact (plain_setRules b _ _).trans (talk_reply env ..).plain

theorem plain_removeMatch (rule : Bytes) : Plain b (b.removeMatch env c call rule) := by
  unfold removeMatch
  split
  · exact (talk_replyError env b ..).plain
  · exact (plain_setRules b _ _).trans (talk_reply env ..).plain

theorem plain_driverCall : Plain b (b.driverCall env c w raw) := by
  have hdispatch := fun call => driverDispatch_rule env (fun _ h => h.plain) (plain_hello env b c.id call)
    (fun _ => plain_requestName env b c call) (plain_releaseName env b c call)
    (fun _ rule _ => plain_addMatch env b c call rule) (plain_removeMatch env b c call)
  unfold driverCall
  split
  · exact (talk_synthErrorWire env b ..).plain
  case h_2 call _ =>
    have hcall := hdispatch call
    split
    case h_1 b' hb' => rwa [hb'] at hcall
    case h_2 b' hb' =>
      rw [hb'] at hcall
      exact hcall.trans (talk_synthErrorWire env ..).plain

end Broker

end SchemaInit.Dbus
