/-
# `SchemaInit.Dbus.Cargo` — what connections bring to a restart

A snapshot is read back field by field, and three fields of a connection are
checked on the way: the number of its groups, the number of its waiting
descriptors, and the text of its match rules, which has to parse once more.

| field | who sets it | why the reader takes it |
| :-- | :-- | :-- |
| `gids` | `accept` | `capture_creds` keeps at most `SDBUS_MAX_GIDS` |
| `pending_fds` | `recvmsg` | what does not fit is closed |
| `matches`, `mon_matches` | `AddMatch`, `RemoveMatch`, `BecomeMonitor` | the text of a rule that parsed |

`Carried` says this of every connection.  Everything else the broker does leaves
these fields alone or drops some of the descriptors (`Lighter`), so the step
lemma `Carried.step` looks at the few places that do not.

Two facts come from outside.  `capture_creds` is not run here, so its bound is a
condition on the event; and libdbus hands over C strings.
-/
import SchemaInit.Dbus.LedgerStep
import SchemaInit.Dbus.Handover

namespace SchemaInit.Dbus

open Conn Option List KeyedList

variable {rule : Bytes} {c c' : Conn} {b b' : Broker} {f : Conn → Conn} {rules : MatchSet} {call : DriverCall}
    {env : Env}

/-- The text of every rule gives the rule again, also when it is read as a C string. -/
def RulesParse (rules : MatchSet) : Prop :=
  ∀ r ∈ rules, parseRule r.raw = some r ∧ 0 ∉ r.raw

theorem RulesParse.nil : RulesParse [] := fun _ h => (nomatch h)

theorem RulesParse.matchAdd {m m' : MatchSet} (h : RulesParse m) {rule : Bytes} (hrule : 0 ∉ rule)
    (hadd : matchAdd m rule = some m') : RulesParse m' := by
  simp only [Dbus.matchAdd, map_eq_some_iff] at hadd
  obtain ⟨r, hparse, rfl⟩ := hadd
  intro x hx
  rcases mem_append.mp hx with hx | hx
  · exact h x hx
  · obtain rfl := mem_singleton.mp hx
    rw [raw_parseRule hparse]
    exact ⟨hparse, hrule⟩

theorem RulesParse.foldlM {texts : List Bytes} (htexts : ∀ t ∈ texts, 0 ∉ t) {m m' : MatchSet} (h : RulesParse m)
    (hall : texts.foldlM Dbus.matchAdd m = some m') : RulesParse m' := by
  induction texts generalizing m with
  | nil =>
    cases hall
    exact h
  | cons t texts ih =>
    rw [foldlM_cons] at hall
    obtain ⟨m₁, hadd, hrest⟩ := bind_eq_some_iff.mp hall
    exact ih (fun x hx => htexts x (mem_cons_of_mem _ hx)) (h.matchAdd (htexts t mem_cons_self) hadd) hrest

theorem RulesParse.matchRemove {m m' : MatchSet} (h : RulesParse m) {rule : Bytes}
    (hremove : matchRemove m rule = some m') : RulesParse m' := by
  simp only [Dbus.matchRemove, map_eq_some_iff] at hremove
  obtain ⟨i, hi, rfl⟩ := hremove
  exact fun r hr => h r (mem_of_mem_swapRemove hr)

/-- What a connection carries into the snapshot passes the reader's checks. -/
structure Conn.Carried (c : Conn) : Prop where
  gids : c.creds.gids.length ≤ maxGids
  pendingFds : c.pendingFds.length ≤ maxPendingFds
  rules : RulesParse (c.rules.getD [])
  monRules : RulesParse (c.monRules.getD [])

structure Conn.Under (c' c : Conn) : Prop where
  creds : c'.creds = c.creds
  pendingFds : c'.pendingFds.length ≤ c.pendingFds.length
  rules : c'.rules = c.rules
  monRules : c'.monRules = c.monRules

theorem Conn.Under.refl (c : Conn) : c.Under c := ⟨rfl, le_refl _, rfl, rfl⟩

theorem Conn.Under.trans {c'' : Conn} (h' : c''.Under c') (h : c'.Under c) : c''.Under c :=
  ⟨h'.creds.trans h.creds, h'.pendingFds.trans h.pendingFds, h'.rules.trans h.rules, h'.monRules.trans h.monRules⟩

theorem Conn.Carried.under (h : c.Carried) (hu : c'.Under c) : c'.Carried where
  gids := hu.creds ▸ h.gids
  pendingFds := hu.pendingFds.trans h.pendingFds
  rules := hu.rules ▸ h.rules
  monRules := hu.monRules ▸ h.monRules

theorem Conn.under_enqueue (c : Conn) (bytes : Bytes) (fds : List Int) : (c.enqueue bytes fds).Under c := by
  unfold enqueue
  split
  · exact ⟨rfl, le_refl _, rfl, rfl⟩
  · exact ⟨rfl, le_refl _, rfl, rfl⟩

theorem Conn.under_inAppend (c : Conn) (data : Bytes) : (c.inAppend data).Under c := by
  unfold inAppend
  split
  · exact ⟨rfl, le_refl _, rfl, rfl⟩
  · exact ⟨rfl, le_refl _, rfl, rfl⟩

theorem Conn.under_of_unshaken (h : c'.unshaken = c.unshaken) : c'.Under c := by
  cases c
  cases c'
  simp only [unshaken, mk.injEq] at h
  obtain ⟨-, -, -, -, -, -, -, hcreds, -, -, -, -, hpending, -, -, -, hrules, -, hmon⟩ := h
  exact ⟨hcreds, le_of_eq (congrArg List.length hpending), hrules, hmon⟩

theorem Conn.under_flush (answers : List SendResult) (c : Conn) (closed : List Int) :
    (c.flush answers closed).1.Under c := by
  obtain ⟨oq, n, heq⟩ := flush_out answers c closed
  rw [heq]
  exact ⟨rfl, le_refl _, rfl, rfl⟩

namespace Broker

/-! ## What only makes it lighter -/

/-- Every connection was there before, with the same cargo but for descriptors that are gone. -/
def Lighter (b b' : Broker) : Prop :=
  ∀ c' ∈ b'.conns, ∃ c ∈ b.conns, c'.Under c

theorem Lighter.trans {b'' : Broker} (h : Lighter b b') (h' : Lighter b' b'') : Lighter b b'' := by
  intro c'' hc''
  obtain ⟨c', hc', hu'⟩ := h' c'' hc''
  obtain ⟨c, hc, hu⟩ := h c' hc'
  exact ⟨c, hc, hu'.trans hu⟩

theorem lighter_of_conns (h : b'.conns = b.conns) : Lighter b b' :=
  fun c hc => ⟨c, h ▸ hc, Conn.Under.refl c⟩

theorem lighter_modConn (b : Broker) (id : ConnId) (hf : ∀ c, (f c).Under c) : Lighter b (b.modConn id f) := by
  intro c' hc'
  obtain ⟨c, hc, rfl⟩ := mem_map.mp hc'
  refine ⟨c, hc, ?_⟩
  split
  · exact hf c
  · exact Conn.Under.refl c

theorem lighter_setConn {id : ConnId} (hc : b.conn? id = some c) (hu : c'.Under c) :
    Lighter b (b.modConn id (fun _ => c')) := by
  intro x hx
  obtain ⟨y, hy, rfl⟩ := mem_map.mp hx
  split
  · exact ⟨c, mem_of_lookup hc, hu⟩
  · exact ⟨y, hy, Conn.Under.refl y⟩

theorem lighter_foldl {α : Type} {f : Broker → α → Broker} (h : ∀ b x, Lighter b (f b x)) (b : Broker) (l : List α) :
    Lighter b (l.foldl f b) :=
  l.foldlRecOn f (lighter_of_conns rfl) fun u hu x _ => hu.trans (h u x)

theorem lighter_closeFds (b : Broker) (fds : List Int) : Lighter b (b.closeFds fds) :=
  lighter_of_conns (conns_closeFds b fds)

theorem lighter_enqueue (b : Broker) (id : ConnId) (bytes : Bytes) (fds : List Int) :
    Lighter b (b.enqueue id bytes fds) := by
  have hmod := lighter_modConn b id fun c => c.under_enqueue bytes fds
  unfold enqueue
  split
  · exact lighter_of_conns rfl
  · split
    · exact hmod.trans (lighter_closeFds _ _)
    · exact hmod

theorem Talk1.lighter (h : Talk1 b b') : Lighter b b' := by
  cases h with
  | serial s d => exact lighter_of_conns rfl
  | enqueue id bytes => exact lighter_enqueue b id bytes []
  | copy id bytes fds c hc hfds =>
    exact (lighter_of_conns (opens_dupFds b fds).conns).trans (lighter_enqueue _ id bytes _)
  | out id g => exact lighter_modConn b id fun c => ⟨rfl, le_refl _, rfl, rfl⟩
  | reports rs => exact lighter_of_conns rfl
  | socket hfd =>
    have hopen := lighter_of_conns (opens_openFd b).conns
    split
    · exact hopen
    · exact hopen

theorem Talk.lighter (h : Talk b b') : Lighter b b' := by
  induction h with
  | refl => exact lighter_of_conns rfl
  | tail _ hstep ih => exact ih.trans hstep.lighter

theorem Haul1.lighter {new : ConnId → Prop} (h : Haul1 new b b') : Lighter b b' := by
  cases h with
  | talk h => exact h.lighter
  | close fds => exact lighter_closeFds b fds
  | dup fds => exact lighter_of_conns (opens_dupFds b fds).conns
  | send id bytes fds copies => exact lighter_enqueue b id bytes fds
  | pending id g hg => exact lighter_modConn b id fun c => ⟨rfl, hg _, rfl, rfl⟩
  | replies replies => exact lighter_of_conns rfl
  | acts acts h => exact lighter_of_conns rfl

theorem Haul.lighter (h : Haul (fun _ => True) b b') : Lighter b b' := by
  induction h with
  | refl => exact lighter_of_conns rfl
  | tail _ hstep ih => exact ih.trans hstep.lighter

theorem Calm1.lighter (h : Calm1 b b') : Lighter b b' := by
  cases h with
  | quiet h => exact (h.haul b).lighter
  | field => exact lighter_of_conns rfl
  | await => exact lighter_of_conns rfl

theorem Calm.lighter (h : Calm b b') : Lighter b b' := by
  induction h with
  | refl => exact lighter_of_conns rfl
  | tail _ hstep ih => exact ih.trans hstep.lighter

theorem lighter_announce (env : Env) (b : Broker) (k : OwnerChange) (dying : Option ConnId) :
    Lighter b (b.announce env k dying) :=
  (talk_announce env b k dying).lighter

theorem lighter_broadcastTransitions (env : Env) (b : Broker) (ts : List Transition) :
    Lighter b (b.broadcastTransitions env ts) := by
  refine lighter_foldl (fun b t => ?_) b ts
  unfold broadcastTransition
  exact ((lighter_announce env b _ _).trans (talk_nameLost env ..).lighter).trans
    (quiet_nameAcquired env ..).calm.lighter

theorem lighter_dropNames (env : Env) (b : Broker) (id : ConnId) : Lighter b (b.dropNames env id) := by
  have hmod : Lighter b _ := lighter_modConn { b with names := (b.names.disconnect id).1 } id
    (f := fun c => { c with unique := none }) fun c => ⟨rfl, le_refl _, rfl, rfl⟩
  have hdrop := hmod.trans (lighter_broadcastTransitions env _ (b.names.disconnect id).2)
  unfold dropNames
  dsimp only
  split
  · exact hdrop
  · exact hdrop.trans (lighter_announce env _ _ _)

theorem lighter_freeConn (b : Broker) (c : Conn) : Lighter b (b.freeConn c) := by
  intro x hx
  simp only [freeConn, conns_closeFds, conns_closeFd, without, swapOut] at hx
  refine ⟨x, ?_, Conn.Under.refl x⟩
  split at hx
  · exact hx
  · exact mem_of_mem_swapRemove hx

theorem lighter_removeConn (env : Env) (b : Broker) (id : ConnId) : Lighter b (b.removeConn env id) := by
  cases hc : b.conn? id with
  | none =>
    rw [removeConn_of_none env b id hc]
    exact lighter_of_conns rfl
  | some c =>
    obtain ⟨n, b₁, htalk, heq⟩ := removeConn_steps env b id hc
    have hmon : Lighter b { b with nmonitors := n } := lighter_of_conns rfl
    have hgone := (hmon.trans (lighter_dropNames env _ id)).trans htalk.lighter
    rw [heq]
    dsimp only
    split
    · exact hgone.trans (lighter_of_conns rfl)
    · exact (hgone.trans (lighter_of_conns rfl)).trans (lighter_freeConn _ _)

theorem lighter_takeBytes (env : Env) (b : Broker) (id : ConnId) (data : Bytes) :
    Lighter b (b.takeBytes env id data) := by
  unfold takeBytes
  split
  · exact lighter_of_conns rfl
  case h_2 c hc =>
    split
    · have happend := lighter_modConn b id fun c => c.under_inAppend data
      split
      · exact happend.trans (lighter_removeConn env _ id)
      · exact happend
    · have hshake := (lighter_setConn hc (under_of_unshaken (unshaken_authFeed env.guid c data))).trans
        (talk_drainScratch _ id).lighter
      dsimp only
      split
      · exact hshake.trans (lighter_removeConn env _ id)
      · exact hshake

theorem lighter_writable (env : Env) (b : Broker) (id : ConnId) (answers : List SendResult) :
    Lighter b (b.writable env id answers) := by
  unfold writable
  split
  · exact lighter_of_conns rfl
  case h_2 c hc =>
    have hflush := (lighter_setConn hc (under_flush answers c [])).trans (lighter_closeFds _ (c.flush answers []).2.1)
    dsimp only
    split
    · exact hflush
    · exact hflush.trans (lighter_removeConn env _ id)

end Broker

/-! ## What comes from outside -/

def Arg.Terminated : Arg → Prop
  | .str s => 0 ∉ s
  | .strv l => ∀ s ∈ l, 0 ∉ s
  | _ => True

def Libdbus.HandsCStrings (L : Libdbus) : Prop :=
  ∀ raw, ∀ call ∈ L.demarshal raw, ∀ a ∈ call.args, a.Terminated

structure Input.Proper (i : Input) : Prop where
  strings : i.env.lib.HandsCStrings
  gids : ∀ creds, i.event = .accept creds → creds.gids.length ≤ maxGids

namespace Broker

def Carried (b : Broker) : Prop :=
  ∀ c ∈ b.conns, c.Carried

section

variable (h : b.Carried)
include h

theorem Carried.lighter (hl : Lighter b b') : b'.Carried := by
  intro c' hc'
  obtain ⟨c, hc, hu⟩ := hl c' hc'
  exact (h c hc).under hu

theorem Carried.modConn (id : ConnId) (hf : ∀ c : Conn, c.Carried → (f c).Carried) : (b.modConn id f).Carried := by
  intro c' hc'
  obtain ⟨c, hc, rfl⟩ := mem_map.mp hc'
  split
  · exact hf c (h c hc)
  · exact h c hc

theorem Carried.setRules (id : ConnId) (hrules : RulesParse rules) : (b.setRules id rules).Carried :=
  h.modConn id fun _ hc => ⟨hc.gids, hc.pendingFds, hrules, hc.monRules⟩

/-! ## Driver calls -/

theorem Carried.addMatch (env : Env) (hc : c.Carried) (call : DriverCall) (hrule : 0 ∉ rule) :
    (b.addMatch env c call rule).Carried := by
  unfold Broker.addMatch
  dsimp only
  split
  · exact (h.setRules c.id hc.rules).lighter (talk_replyError env ..).lighter
  · split
    · exact (h.setRules c.id hc.rules).lighter (talk_replyError env ..).lighter
    case h_2 rules hadd =>
      exact (h.setRules c.id (hc.rules.matchAdd hrule hadd)).lighter (talk_reply env ..).lighter

theorem Carried.removeMatch (env : Env) (hc : c.Carried) (call : DriverCall)
    (rule : Bytes) : (b.removeMatch env c call rule).Carried := by
  unfold Broker.removeMatch
  split
  · exact h.lighter (talk_replyError env ..).lighter
  case h_2 rules hremove =>
    obtain ⟨m, hm, hremove⟩ := bind_eq_some_iff.mp hremove
    have hrules := hc.rules
    rw [hm] at hrules
    exact (h.setRules c.id (hrules.matchRemove hremove)).lighter (talk_reply env ..).lighter

theorem Carried.hello (env : Env) (id : ConnId) (call : DriverCall) : (b.hello env id call).Carried := by
  unfold Broker.hello
  split
  · exact h
  · split
    · refine Carried.lighter ?_ (talk_reply env ..).lighter
      exact h.lighter (lighter_modConn b id fun c => ⟨rfl, le_refl _, rfl, rfl⟩)
    · refine Carried.lighter ?_ (talk_reply env ..).lighter
      exact h.lighter (lighter_modConn { b with names := (b.names.allocUnique id).1 } id
        fun c => ⟨rfl, le_refl _, rfl, rfl⟩)

theorem Carried.requestName (env : Env) (c : Conn) (call : DriverCall) (name : Bytes)
    (flags : Nat) : (b.requestName env c call name flags).Carried := by
  unfold Broker.requestName
  split
  · exact h.lighter (talk_invalidArgs env b ..).lighter
  · split
    · exact h.lighter (talk_replyError env b ..).lighter
    · split
      · exact h.lighter (talk_replyError env b ..).lighter
      · refine Carried.lighter ?_ (talk_reply env ..).lighter
        exact h.lighter (lighter_broadcastTransitions env
          { b with names := (b.names.request c.id name (ReqFlags.ofNat flags)).1 } _)

theorem Carried.releaseName (env : Env) (c : Conn) (call : DriverCall) (name : Bytes) :
    (b.releaseName env c call name).Carried := by
  unfold Broker.releaseName
  refine Carried.lighter ?_ (talk_reply env ..).lighter
  exact h.lighter (lighter_broadcastTransitions env { b with names := (b.names.release c.id name).1 } _)

theorem Carried.driverDispatch (env : Env) (hc : c.Carried)
    (hargs : ∀ a ∈ call.args, a.Terminated) : (b.driverDispatch env c call).1.Carried :=
  driverDispatch_rule env (fun _ ht => h.lighter ht.lighter) (h.hello env _ _)
    (fun _ => h.requestName env c call) (h.releaseName env c call)
    (fun _ _ hin => h.addMatch env hc call (hargs _ hin)) (h.removeMatch env hc call)

theorem Carried.driverCall (henv : env.lib.HandsCStrings)
    (hc : c.Carried) (w : WireMsg) (raw : Bytes) : (b.driverCall env c w raw).Carried := by
  unfold Broker.driverCall
  cases hcall : env.lib.demarshal raw with
  | none => exact h.lighter (talk_synthErrorWire env b ..).lighter
  | some call =>
    have hdispatch := h.driverDispatch env hc (henv raw call hcall)
    dsimp only
    split
    case h_1 b' hb' => rwa [hb'] at hdispatch
    case h_2 b' hb' =>
      rw [hb'] at hdispatch
      exact hdispatch.lighter (talk_synthErrorWire env b' ..).lighter

end

theorem rulesParse_monitorAnswer (henv : env.lib.HandsCStrings) {w : WireMsg}
    {raw : Bytes} (h : (b.monitorAnswer env c w raw).2 = some rules) : RulesParse rules := by
  unfold monitorAnswer at h
  cases hcall : env.lib.demarshal raw with
  | none =>
    rw [hcall] at h
    cases h
  | some call =>
    rw [hcall] at h
    dsimp only at h
    have hargs := henv raw call hcall
    unfold monitorRequest at h
    split at h
    · cases h
    case h_2 rules' hreq =>
      cases h
      split at hreq
      · cases hreq
      · split at hreq
        case h_1 rv rest hrv =>
          split at hreq
          · cases hreq
          · split at hreq
            · cases hreq
            case h_2 rules'' hfold =>
              cases hreq
              exact RulesParse.nil.foldlM (hargs (.strv rv) (hrv ▸ mem_cons_self)) hfold
        · cases hreq

section

variable (h : b.Carried)
include h

theorem Carried.turnMonitor (env : Env) (id : ConnId)
    (hrules : RulesParse rules) : (b.turnMonitor env id rules).Carried := by
  have hgone := (h.lighter (talk_ownNameLost env b id).lighter).lighter (lighter_dropNames env _ id)
  exact hgone.modConn id fun _ hc => ⟨hc.gids, hc.pendingFds, RulesParse.nil, hrules⟩

theorem Carried.becomeMonitor (henv : env.lib.HandsCStrings) (c : Conn)
    (w : WireMsg) (raw : Bytes) (nfds : Nat) : (b.becomeMonitor env c w raw nfds).Carried := by
  have hanswer := h.lighter (talk_monitorAnswer env b c w raw).lighter
  unfold Broker.becomeMonitor
  split
  case h_1 b' hb' =>
    rw [hb'] at hanswer
    exact hanswer.lighter (haul_finishMessage b' ..).lighter
  case h_2 b' rules hb' =>
    rw [hb'] at hanswer
    exact (hanswer.lighter (haul_finishMessage b' c.id nfds false).lighter).turnMonitor env c.id
      (rulesParse_monitorAnswer henv (by rw [hb']))

/-! ## Steps -/

theorem Carried.handleDriver (henv : env.lib.HandsCStrings)
    (hc : c.Carried) (w : WireMsg) (raw : Bytes) (nfds : Nat) : (b.handleDriver env c w raw nfds).Carried := by
  unfold Broker.handleDriver
  split
  · exact (h.lighter (calm_startServiceByName env b c w raw).lighter).lighter (haul_finishMessage ..).lighter
  · split
    · exact h.becomeMonitor henv c w raw nfds
    · split
      · exact (h.lighter (calm_configCall env b c w raw).lighter).lighter (haul_finishMessage ..).lighter
      · exact (h.driverCall henv hc w raw).lighter (haul_finishMessage ..).lighter

theorem Carried.handleMessage (henv : env.lib.HandsCStrings) (id : ConnId)
    (w : WireMsg) (raw : Bytes) : (b.handleMessage env id w raw).Carried := by
  unfold Broker.handleMessage
  split
  · exact h
  case h_2 c hc =>
    have hcarried := h c (mem_of_lookup hc)
    dsimp only
    split
    · exact h.lighter (((talk_synthErrorWire env b ..).lighter.trans (haul_dropPending _ id).lighter).trans
        (talk_drainScratch _ id).lighter)
    · split
      · exact h.lighter (haul_consumeMsgFds b ..).lighter
      · have hinbound := h.lighter (talk_monitorInbound b c w raw (sdbusWireNFds w).toNat).lighter
        split
        · exact hinbound.handleDriver henv hcarried w raw _
        · split
          · exact hinbound.lighter (haul_refuse env ..).lighter
          · split
            · exact hinbound.lighter (haul_refuse env ..).lighter
            · exact hinbound.lighter (haul_handleRouted env _ _ trivial ..).lighter

theorem Carried.deliver (henv : env.lib.HandsCStrings) (id : ConnId) : (b.deliver env id).Carried := by
  unfold Broker.deliver
  split
  · exact h
  · split
    · exact h
    · split
      · exact h
      · exact h.lighter ((haul_dropPending b id).lighter.trans
          (lighter_modConn _ id fun c => ⟨rfl, le_refl _, rfl, rfl⟩))
      · exact (h.handleMessage henv id _ _).lighter (lighter_modConn _ id fun c => ⟨rfl, le_refl _, rfl, rfl⟩)

theorem Carried.takeFds (hd : b.ids.Nodup) (hc : b.conn? c.id = some c) (nfds : Nat) : (b.takeFds c nfds).Carried := by
  unfold Broker.takeFds
  refine Carried.lighter ?_ (lighter_closeFds _ _)
  intro x hx
  dsimp only [Broker.modConn] at hx
  rw [conns_openFds] at hx
  obtain ⟨y, hy, rfl⟩ := mem_map.mp hx
  have hcarried := h y hy
  split
  case isTrue hid =>
    have hlookup := lookup_of_mem hd hy
    rw [hid] at hlookup
    obtain rfl : y = c := some.inj (hlookup.symm.trans hc)
    refine ⟨hcarried.gids, ?_, hcarried.rules, hcarried.monRules⟩
    have hroom := hcarried.pendingFds
    rw [length_append, length_take]
    omega
  · exact hcarried

theorem Carried.receive (hd : b.ids.Nodup) (env : Env) (id : ConnId) (data : Bytes)
    (nfds : Nat) : (b.receive env id data nfds).Carried := by
  unfold Broker.receive
  split
  · exact h
  case h_2 c hc =>
    obtain rfl : c.id = id := key_of_lookup hc
    exact (h.takeFds hd hc nfds).lighter (lighter_takeBytes env _ _ _)

theorem Carried.addConn {creds : Creds} (hgids : creds.gids.length ≤ maxGids) : (b.addConn creds).Carried := by
  have hconns := (opens_openFd b).conns
  unfold Broker.addConn
  dsimp only
  split
  · exact h.lighter (lighter_of_conns hconns)
  · split
    · refine h.lighter (lighter_of_conns ?_)
      rw [conns_closeFd]
      exact hconns
    · intro c hc
      rcases mem_append.mp hc with hc | hc
      · exact h c (hconns ▸ hc)
      · obtain rfl := mem_singleton.mp hc
        exact ⟨hgids, Nat.zero_le _, RulesParse.nil, RulesParse.nil⟩

theorem Carried.step (hd : b.ids.Nodup) {i : Input} (hi : i.Proper) : (Dbus.step b i).Carried := by
  unfold Dbus.step
  cases hevent : i.event with
  | accept creds =>
    dsimp only
    split
    · exact h
    · exact h.addConn (hi.gids creds hevent)
  | receive id data nfds =>
    dsimp only
    split
    · exact h
    · exact h.receive hd i.env id data nfds
  | deliver id => exact h.deliver hi.strings id
  | writable id answers => exact h.lighter (lighter_writable i.env b id answers)
  | hangup id => exact h.lighter (lighter_removeConn i.env b id)
  | expireReplies => exact h.lighter (quiet_expireReplies i.env b).calm.lighter
  | expireAct => exact h.lighter (quiet_expireAct i.env b).calm.lighter
  | childExit pid => exact h.lighter (quiet_childExit i.env b pid).calm.lighter
  | sweep =>
    dsimp only [sweep]
    split
    · exact h
    · exact h.lighter (lighter_removeConn i.env b _)
  | reportFlush => exact h.lighter (talk_reportFlush i.env b).lighter
  | reload =>
    dsimp only
    split
    · exact h
    · exact h.lighter (calm_reloadRequest i.env b none).lighter
  | dissolved outcome => exact h.lighter (calm_reloadReaped i.env b outcome).lighter
  | reloadTimeout => exact h.lighter (calm_reloadCheckTimeout i.env b).lighter
  | terminate => exact h
  | abort =>
    dsimp only
    split
    · exact h.lighter ((calm_reloadAbort i.env b).trans (quiet_failActs i.env _).calm).lighter
    · exact h

end

theorem carried_of_reaches {k : Config}
    (h : Run.Reaches Dbus.step (fun _ i => i.Proper) (Broker.start k) b) : b.Carried := by
  have hboth : b.Carried ∧ b.bus.Live := by
    refine h.invariant (fun b => b.Carried ∧ b.bus.Live) ⟨fun _ hc => (nomatch hc), live_start k⟩ ?_
    rintro b i ⟨hcarried, hlive⟩ hi
    refine ⟨hcarried.step ?_ hi, live_step hlive i⟩
    rw [← ids_bus]
    exact hlive.nodup
  exact hboth.1

end Broker

end SchemaInit.Dbus
