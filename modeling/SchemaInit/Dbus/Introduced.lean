/-
# `SchemaInit.Dbus.Introduced` — who has said `Hello`

A connection gets its unique name from `Hello`.  Messages to other clients are
refused before that, but the driver takes three calls from anyone who has
authenticated: `RequestName`, `AddMatch` and `StartServiceByName` make state for
a connection that has no name to be called by.  `BecomeMonitor` is the other way
out of the rule: it takes the unique name away, and a call that is held for the
connection stays.

`introduced_of_reaches` says that these are the only ways.  In a run without them
everyone who holds a name, has match rules or has a call held is known by a
unique name, to the registry and to the connection alike, and a monitor has
neither names nor rules.

The proof is about `Bus` again, with `Known` for the invariant; `MoveOf` says of a
message which move it can make, and of whom.
-/
import SchemaInit.Dbus.OwnerLog
import SchemaInit.Dbus.ReloadRun

namespace SchemaInit.Dbus

open Bus Names Broker Option KeyedList

variable {f : Conn → Conn} {s : Bus} {l : Label} {b : Broker} {i : Input}

/-! ## The bus -/

structure Conn.Decent (c : Conn) : Prop where
  ruled : c.rules.getD [] ≠ [] → c.unique.isSome = true
  monitor : c.isMonitor = true → c.unique = none

namespace Bus

structure Known (s : Bus) : Prop where
  live : s.Live
  once : (s.names.uniques.map UniqueEnt.connId).Nodup
  agree : ∀ id, s.names.unique id = s.uniqueOf id
  holders : ∀ id, s.names.Holding id → (s.uniqueOf id).isSome = true
  decent : ∀ id c, s.face? id = some c → c.Decent

/-- The move makes no state for a connection without a unique name, and gives a monitor none. -/
def Permits (s : Bus) : Label → Prop
  | .accept c => c.Decent
  | .hello id => ∀ c, s.face? id = some c → c.isMonitor = false
  | .request id _ _ => (s.uniqueOf id).isSome = true
  | .setRules id rules => rules ≠ [] → (s.uniqueOf id).isSome = true
  | _ => True

theorem face?_mod (s : Bus) (id : ConnId) (hf : ∀ c, (f c).id = c.id) (x : ConnId) :
    (s.mod id f).face? x = (s.face? x).map (fun c => if x = id then f c else c) := by
  unfold face? mod
  rw [lookup_update hf]
  refine map_congr fun c hc => ?_
  rw [key_of_lookup hc]

theorem decent_mod (h : ∀ x c, s.face? x = some c → c.Decent) (id : ConnId)
    (hf : ∀ c, (f c).id = c.id) (hdecent : ∀ c, s.face? id = some c → (f c).Decent) (x : ConnId) (c' : Conn)
    (hc' : (s.mod id f).face? x = some c') : c'.Decent := by
  rw [s.face?_mod id hf] at hc'
  obtain ⟨c, hc, rfl⟩ := map_eq_some_iff.mp hc'
  split
  case isTrue hx => exact hdecent c (hx ▸ hc)
  · exact h x c hc

theorem Known.mod (h : s.Known) (id : ConnId) (hf : ∀ c, (f c).id = c.id)
    (hu : ∀ c, (f c).unique = c.unique) (hdecent : ∀ c, s.face? id = some c → (f c).Decent) : (s.mod id f).Known where
  live := h.live.mod id hf
  once := h.once
  agree := fun x => (h.agree x).trans (s.uniqueOf_mod id hf hu x).symm
  holders := fun x hx => by
    rw [s.uniqueOf_mod id hf hu]
    exact h.holders x hx
  decent := decent_mod h.decent id hf hdecent

theorem Known.hello (h : s.Known) {id : ConnId} (hid : id ∈ s.ids)
    (hmon : ∀ c, s.face? id = some c → c.isMonitor = false) : (s.hello id).Known := by
  have hlive := h.live.hello id
  have hset := uniqueOf_hello hid
  unfold Bus.hello at hlive hset ⊢
  cases hu : s.uniqueOf id with
  | some u =>
    exact h.mod id (fun _ => rfl) (fun _ => rfl) fun c hc => ⟨(h.decent id c hc).ruled, (h.decent id c hc).monitor⟩
  | none =>
    rw [hu] at hlive hset
    replace hset := hset rfl
    have hnone : s.names.unique id = none := (h.agree id).trans hu
    refine ⟨hlive, nodup_allocUnique h.once hnone, fun x => ?_, fun x hx => ?_, ?_⟩
    · rw [hset, ← h.agree]
      exact unique_allocUnique hnone x
    · rw [hset]
      split
      · rfl
      · exact h.holders x hx
    · refine decent_mod h.decent id (fun _ => rfl) fun c hc => ?_
      exact ⟨fun _ => rfl, fun hm => absurd hm (by simp [hmon c hc])⟩

theorem Known.setNames (h : s.Known) {r : Names} (huniques : r.uniques = s.names.uniques)
    (hhold : ∀ x, r.Holding x → (s.uniqueOf x).isSome = true) (ks : List OwnerChange)
    (hlive : ({ s with names := r }.logged ks).Live) : ({ s with names := r }.logged ks).Known where
  live := hlive
  once := by
    show (r.uniques.map UniqueEnt.connId).Nodup
    rw [huniques]
    exact h.once
  agree := fun x => by
    have hsame : r.unique x = s.names.unique x := by rw [unique, huniques]; rfl
    exact hsame.trans (h.agree x)
  holders := hhold
  decent := h.decent

theorem Known.gone {s' : Bus} (h : s.Known) {id : ConnId} (hlive : s'.Live)
    (hnames : s'.names = (s.names.disconnect id).1)
    (hset : ∀ x, s'.uniqueOf x = if x = id then none else s.uniqueOf x)
    (hdecent : ∀ x c, s'.face? x = some c → c.Decent) : s'.Known where
  live := hlive
  once := by
    rw [hnames]
    exact nodup_map_swapOut h.once
  agree := fun x => by
    rw [hnames, hset, ← h.agree]
    exact unique_disconnect h.once id x
  holders := fun x hx => by
    rw [hnames] at hx
    obtain ⟨hne, hold⟩ := Names.Holding.of_disconnect h.live.sound hx
    rw [hset, if_neg hne]
    exact h.holders x hold
  decent := hdecent

theorem Known.apply (h : s.Known) (hv : s.Valid l) (hp : s.Permits l) : (s.apply l).Known := by
  have hlive := h.live.apply hv
  have hdrop (id : ConnId) (hid : id ∈ s.ids) (x : ConnId) :
      (s.dropNames id).uniqueOf x = if x = id then none else s.uniqueOf x :=
    uniqueOf_set { s with names := (s.names.disconnect id).1 } hid
      (f := fun c => { c with unique := none }) (fun _ => rfl) (fun _ => rfl) x
  cases l with
  | stay => exact h
  | turnAway => exact ⟨hlive, h.once, h.agree, h.holders, h.decent⟩
  | accept c =>
    have hunique : ∀ x, (s.apply (.accept c)).uniqueOf x = s.uniqueOf x := uniqueOf_accept hv.2
    refine ⟨hlive, h.once, fun x => (h.agree x).trans (hunique x).symm, fun x hx => hunique x ▸ h.holders x hx,
      fun x c' hc' => ?_⟩
    simp only [face?, apply, lookup, List.find?_append, or_eq_some_iff] at hc'
    rcases hc' with hc' | ⟨-, hc'⟩
    · exact h.decent x c' hc'
    · obtain rfl := List.mem_singleton.mp (List.mem_of_find?_eq_some hc')
      exact hp
  | shake id k =>
    exact h.mod id (fun _ => rfl) (fun _ => rfl) fun c hc => ⟨(h.decent id c hc).ruled, (h.decent id c hc).monitor⟩
  | hello id => exact h.hello hv hp
  | setRules id rules =>
    refine h.mod id (fun _ => rfl) (fun _ => rfl) fun c hc => ⟨fun hne => ?_, (h.decent id c hc).monitor⟩
    have hsome := hp hne
    rw [uniqueOf, hc] at hsome
    exact hsome
  | request id name flags =>
    obtain ⟨_, hhold, _⟩ := request_spec h.live.sound id name flags
    refine h.setNames (request_uniques s.names id name flags).1 (fun x hx => ?_) _ hlive
    rcases hhold x hx with rfl | hx
    · exact hp
    · exact h.holders x hx
  | release id name =>
    obtain ⟨_, hhold, _⟩ := release_spec h.live.sound id name
    exact h.setNames (release_uniques s.names id name).1 (fun x hx => h.holders x (hhold x hx)) _ hlive
  | monitor id rules =>
    refine h.gone hlive rfl (fun x => ?_) fun x c hc => ?_
    · exact ((s.dropNames id).uniqueOf_mod id
        (f := fun c => { c with rules := none, monRules := some rules, isMonitor := true }) (fun _ => rfl)
          (fun _ => rfl) x).trans (hdrop id hv x)
    · -- what the two changes make of the connection in question is a monitor
      obtain ⟨c₁, hc₁, rfl⟩ := map_eq_some_iff.mp ((face?_mod (s.dropNames id) id
          (f := fun c => { c with rules := none, monRules := some rules, isMonitor := true }) (fun _ => rfl)
            x).symm.trans hc)
      obtain ⟨c₀, hc₀, rfl⟩ := map_eq_some_iff.mp
        ((face?_mod { s with names := (s.names.disconnect id).1 } id (f := fun c => { c with unique := none })
          (fun _ => rfl) x).symm.trans hc₁)
      by_cases hx : x = id
      · simp only [if_pos hx]
        exact ⟨fun hne => absurd rfl hne, fun _ => rfl⟩
      · simp only [if_neg hx]
        exact h.decent x c₀ hc₀
  | leave id =>
    rw [apply_leave h.live.nodup] at hlive ⊢
    have hlookup (x : ConnId) : lookup Conn.id x (without id s.faces) = if x = id then none else s.face? x :=
      lookup_swapOut h.live.nodup x
    refine h.gone hlive rfl (fun x => ?_) fun x c hc => ?_
    · simp only [uniqueOf, face?, hlookup]
      split <;> rfl
    · simp only [face?, hlookup] at hc
      split at hc
      · cases hc
      · exact h.decent x c hc

end Bus

namespace Broker

/-! ## Steps -/

def HeldFor (b : Broker) (id : ConnId) : Prop :=
  ∃ m ∈ allHeld b.acts, m.callerId = id

instance (b : Broker) (id : ConnId) : Decidable (b.HeldFor id) :=
  inferInstanceAs (Decidable (∃ m ∈ allHeld b.acts, m.callerId = id))

def StateCall (env : Env) (w : WireMsg) (raw : Bytes) : Prop :=
  NameCall env w raw ∨ RuleCall env w raw ∨ toDriver w = true ∧ w.member = some (cstr "StartServiceByName")

instance (env : Env) (w : WireMsg) (raw : Bytes) : Decidable (StateCall env w raw) :=
  inferInstanceAs (Decidable (_ ∨ _ ∨ _))

/-- The message does not come too early: no call that makes state comes before `Hello`, and no
`BecomeMonitor` while a call is held for its sender. -/
def Civil (b : Broker) (i : Input) : Prop :=
  match i.event with
  | .deliver id => ∀ m ∈ b.nextMsg id,
      (m.1.unique = none → ¬ StateCall i.env m.2 (m.1.inBuf.take m.2.totalLen)) ∧
        (b.HeldFor m.1.id → ¬ MonitorCall i.env m.1 m.2 (m.1.inBuf.take m.2.totalLen))
  | _ => True

instance (b : Broker) (i : Input) : Decidable (b.Civil i) := by
  unfold Civil
  match i.event with
  | .deliver _ => infer_instance
  | .accept _ | .receive .. | .writable .. | .hangup _ | .expireReplies | .expireAct | .childExit _ | .sweep
  | .reportFlush | .reload | .dissolved _ | .reloadTimeout | .terminate | .abort => infer_instance

end Broker

namespace Bus

theorem Known.keeps (h : s.Known) (h' : (s.apply l).Known) {id : ConnId}
    (hu : (s.uniqueOf id).isSome = true) : ((s.apply l).uniqueOf id).isSome = true ∨ l.leaves = some id := by
  -- the registry knows it, and it changes less than the connections do
  have hsame (huniques : (s.apply l).names.uniques = s.names.uniques) : ((s.apply l).uniqueOf id).isSome = true := by
    rwa [← h'.agree, unique, huniques, ← unique, h.agree]
  have hdisconnect (x : ConnId) (hne : id ≠ x) : ((s.names.disconnect x).1.unique id).isSome = true := by
    rwa [unique_disconnect h.once, if_neg hne, h.agree]
  cases l with
  | stay => exact .inl hu
  | turnAway => exact .inl hu
  | accept c => exact .inl (hsame rfl)
  | shake x k => exact .inl (hsame rfl)
  | hello x =>
    left
    cases hx : s.uniqueOf x with
    | some u =>
      refine hsame ?_
      simp only [Bus.apply, Bus.hello, hx]
      rfl
    | none =>
      have hnone : s.names.unique x = none := (h.agree x).trans hx
      rw [← h'.agree]
      simp only [Bus.apply, Bus.hello, hx, Bus.mod, unique_allocUnique hnone]
      split
      · rfl
      · rwa [h.agree]
  | setRules x rules => exact .inl (hsame rfl)
  | request x name flags => exact .inl (hsame (request_uniques s.names x name flags).1)
  | release x name => exact .inl (hsame (release_uniques s.names x name).1)
  | monitor x rules =>
    by_cases hx : id = x
    · exact .inr (hx ▸ rfl)
    · rw [← h'.agree]
      exact .inl (hdisconnect x hx)
  | leave x =>
    by_cases hx : id = x
    · exact .inr (hx ▸ rfl)
    · rw [← h'.agree]
      exact .inl (hdisconnect x hx)

end Bus

namespace Broker

def Parks (b : Broker) (i : Input) (id : ConnId) : Prop :=
  ∃ x, i.event = .deliver x ∧ ∃ m ∈ b.nextMsg x, HoldsCall m.1 m.2 ∧ m.1.id = id

/-- The move of a civil step is permitted, and who becomes a monitor has no call held. -/
def Fits (b b' : Broker) (i : Input) : Prop :=
  ∃ l, Moves b b' l ∧ b.bus.Permits l ∧ ∀ id rules, l = .monitor id rules → ¬ b.HeldFor id ∧ ¬ b.Parks i id

theorem decent_new (fd : Int) (id : ConnId) (creds : Creds) : (Conn.new fd id creds).Decent :=
  ⟨fun h => absurd rfl h, fun h => (nomatch h)⟩

theorem fits_message (h : b.bus.Known) (hi : b.Civil i) {b' : Broker} {id : ConnId} {c : Conn} {w : WireMsg} {l : Label}
    (hev : i.event = .deliver id) (hc : b.conn? id = some c) (hnext : b.nextMsg id = some (c, w))
    (hmonitor : c.isMonitor = false) (hmove : Moves b b' l)
    (hcause : MoveOf c (NameCall i.env w (c.inBuf.take w.totalLen)) (RuleCall i.env w (c.inBuf.take w.totalLen))
      (MonitorCall i.env c w (c.inBuf.take w.totalLen)) l) : Fits b b' i := by
  have hid : c.id = id := key_of_lookup hc
  simp only [Civil, hev] at hi
  obtain ⟨hstate, hheld⟩ := hi (c, w) hnext
  have hface : b.bus.face? c.id = some c.face := by rw [face?_bus, hid, hc]; rfl
  have hunique : b.bus.uniqueOf c.id = c.unique := by rw [Bus.uniqueOf, hface]; rfl
  -- a call that makes state comes from a connection with a unique name
  have hknown (hcall : StateCall i.env w (c.inBuf.take w.totalLen)) : (b.bus.uniqueOf c.id).isSome = true := by
    rw [hunique, isSome_iff_ne_none]
    exact fun hnone => hstate hnone hcall
  refine ⟨l, hmove, ?_, fun x rules hl => ?_⟩
  · cases hcause with
    | hello =>
      intro c' hc'
      rw [hface] at hc'
      cases hc'
      exact hmonitor
    | request name flags hasks => exact hknown (.inl hasks)
    | setRules rules hrules =>
      intro hne
      rcases hrules hne with hold | hadds
      · rw [hunique]
        exact (h.decent c.id c.face hface).ruled hold
      · exact hknown (.inr (.inl hadds))
    | _ => trivial
  · subst hl
    cases hcause with
    | monitor rules hturns =>
      refine ⟨fun hfor => hheld hfor hturns, ?_⟩
      -- the message is not one of those that are held
      rintro ⟨x, hx, m, hm, hholds, -⟩
      obtain rfl : id = x := by simpa [hev] using hx
      rw [hnext] at hm
      cases hm
      obtain ⟨hdriver, hmember, -⟩ := hturns
      rcases hholds with ⟨-, hstart⟩ | ⟨hrouted, -⟩
      · rw [hmember] at hstart
        exact absurd hstart (by decide)
      · exact hrouted hdriver

theorem fits_step (h : b.bus.Known) (hi : b.Civil i) : Fits b (step b i) i := by
  obtain ⟨l, hmove, hin⟩ := steps_step h.live.nodup i
  cases hin with
  | accept fd creds => exact ⟨_, hmove, decent_new fd _ creds, fun _ _ h => (nomatch h)⟩
  | message hev hc hnext hmonitor hcause => exact fits_message h hi hev hc hnext hmonitor hmove hcause
  | _ => exact ⟨_, hmove, trivial, fun _ _ h => (nomatch h)⟩

theorem held_step (b : Broker) (i : Input) :
    ∀ m ∈ allHeld (step b i).acts, m ∈ allHeld b.acts ∨ b.Parks i m.callerId := by
  have hsame {b' : Broker} (h : b'.acts = b.acts) : ∀ m ∈ allHeld b'.acts, m ∈ allHeld b.acts ∨
      b.Parks i m.callerId := by
    rw [h]
    exact fun _ hm => .inl hm
  unfold step
  cases hev : i.event with
  | accept creds =>
    dsimp only
    split
    · exact hsame rfl
    · exact (aside_addConn b creds).held
  | receive id data nfds =>
    dsimp only
    split
    · exact hsame rfl
    · exact (aside_receive i.env b id data nfds).held
  | deliver id =>
    cases hcall : b.reloadCall i.env id with
    | none => exact (aside_deliver (fun m hm hholds => ⟨id, hev, m, hm, hholds, rfl⟩) hcall).held
    | some call =>
      obtain ⟨b₁, w⟩ := call
      obtain ⟨htalk, -, -, -, hrest⟩ := deliver_reloadCall hcall
      intro m hm
      rcases (hrest (b.Parks i)).held m hm with hm | hnew
      · rw [(Performs.request i.env b₁ (some w)).acts, htalk.steady.acts] at hm
        exact .inl hm
      · exact .inr hnew
  | writable id answers => exact (aside_writable i.env b id answers).held
  | hangup id => exact (aside_removeConn i.env b id).held
  | expireReplies => exact (quiet_expireReplies i.env b).plain.aside.held
  | expireAct => exact (quiet_expireAct i.env b).plain.aside.held
  | childExit pid => exact (quiet_childExit i.env b pid).plain.aside.held
  | sweep =>
    dsimp only [sweep]
    split
    · exact hsame rfl
    · exact (aside_removeConn i.env b _).held
  | reportFlush => exact hsame (talk_reportFlush i.env b).steady.acts
  | reload =>
    dsimp only
    split
    · exact hsame rfl
    · exact hsame (Performs.request i.env b none).acts
  | dissolved outcome => exact hsame (Performs.reaped i.env b outcome).acts
  | reloadTimeout => exact hsame (Performs.timeout i.env b).acts
  | terminate => exact hsame rfl
  | abort =>
    dsimp only
    split
    · intro m hm
      rcases (quiet_failActs i.env (b.reloadAbort i.env)).plain.aside.held m hm with hm | hnew
      · exact hsame (Performs.abort i.env b).acts m hm
      · exact .inr hnew
    · exact hsame rfl

/-! ## Runs -/

structure Polite (b : Broker) : Prop where
  known : b.bus.Known
  held : ∀ id ∈ b.ids, b.HeldFor id → (b.bus.uniqueOf id).isSome = true
  old : ∀ m ∈ allHeld b.acts, m.callerId < b.nextId

theorem polite_start (k : Config) : (start k).Polite where
  known :=
    { live := live_start k
      once := List.nodup_nil
      agree := fun _ => rfl
      holders := fun _ ⟨_, he, _⟩ => (nomatch he)
      decent := fun _ _ h => (nomatch h) }
  held := fun _ hid => (nomatch hid)
  old := fun _ hm => (nomatch hm)

theorem known_of_parks (hi : b.Civil i) {id : ConnId} (h : b.Parks i id) :
    id ∈ b.ids ∧ (b.bus.uniqueOf id).isSome = true := by
  obtain ⟨x, hev, ⟨c, w⟩, hm, hholds, rfl⟩ := h
  have hnext : b.nextMsg x = some (c, w) := hm
  have hc : b.conn? x = some c := by
    unfold nextMsg at hnext
    split at hnext
    · cases hnext
    case h_2 d hd =>
      split at hnext
      · cases hnext
        exact hd
      · cases hnext
  have hid : c.id = x := key_of_lookup hc
  have hunique : b.bus.uniqueOf c.id = c.unique := by
    rw [uniqueOf_bus, uniqueOf, hid, hc]
    rfl
  refine ⟨List.mem_map_of_mem (mem_of_lookup hc), ?_⟩
  simp only [Civil, hev] at hi
  rw [hunique]
  rcases hholds with hstart | ⟨-, hsome⟩
  · rw [isSome_iff_ne_none]
    exact fun hnone => (hi (c, w) hm).1 hnone (.inr (.inr hstart))
  · exact hsome

theorem Polite.step (h : b.Polite) (hi : b.Civil i) : (Dbus.step b i).Polite := by
  obtain ⟨l, ⟨hbus, hvalid⟩, hpermits, hmonitor⟩ := fits_step h.known hi
  have hknown : (Dbus.step b i).bus.Known := hbus ▸ h.known.apply hvalid hpermits
  obtain ⟨hnext, hids⟩ := ids_apply hvalid
  rw [← hbus] at hnext hids
  have hheld := held_step b i
  -- a call that is held is one of a connection that was there, under its unique name
  have hcaller (m : HeldMsg) (hm : m ∈ allHeld (Dbus.step b i).acts) :
      m.callerId < b.nextId ∧ (m.callerId ∈ b.ids → (b.bus.uniqueOf m.callerId).isSome = true) := by
    rcases hheld m hm with hold | hparks
    · exact ⟨h.old m hold, fun hid => h.held m.callerId hid ⟨m, hold, rfl⟩⟩
    · obtain ⟨hid, hsome⟩ := known_of_parks hi hparks
      exact ⟨h.known.live.fresh _ (by rwa [ids_bus]), fun _ => hsome⟩
  refine ⟨hknown, fun id hid ⟨m, hm, heq⟩ => ?_, fun m hm => lt_of_lt_of_le (hcaller m hm).1 hnext⟩
  subst heq
  obtain ⟨hlt, hsome⟩ := hcaller m hm
  have hwas : m.callerId ∈ b.ids := by
    rw [← ids_bus]
    rcases hids m.callerId (by rwa [ids_bus]) with hwas | hnew
    · exact hwas
    · exact absurd hlt (Nat.not_lt.mpr hnew)
  rcases h.known.keeps (hbus ▸ hknown) (hsome hwas) with hkept | hleaves
  · exact hbus ▸ hkept
  · cases l with
    | monitor x rules =>
      obtain ⟨hnone, hparked⟩ := hmonitor x rules rfl
      obtain rfl : x = m.callerId := by simpa [Label.leaves] using hleaves
      rcases hheld m hm with hold | hparks
      · exact absurd ⟨m, hold, rfl⟩ hnone
      · exact absurd hparks hparked
    | leave x =>
      obtain rfl : x = m.callerId := by simpa [Label.leaves] using hleaves
      refine absurd hid ?_
      rw [← ids_bus, hbus, apply_leave h.known.live.nodup]
      exact lookup_eq_none.mp ((lookup_swapOut h.known.live.nodup _).trans (if_pos rfl))
    | _ => cases hleaves

end Broker

structure Broker.Introduced (b : Broker) : Prop where
  /-- the registry and the connections agree on unique names -/
  agree : ∀ c ∈ b.conns, b.names.unique c.id = c.unique
  /-- who holds a name, has match rules or has a call held has one -/
  known : ∀ c ∈ b.conns, b.names.Holding c.id ∨ c.rules.getD [] ≠ [] ∨ b.HeldFor c.id → c.unique.isSome = true
  /-- so has the owner of a name, for `GetNameOwner` and for `NameOwnerChanged` -/
  owners : ∀ n id, b.names.owner n = some id →
    ∃ c u, b.conn? id = some c ∧ c.unique = some u ∧ b.names.unique id = some u
  /-- a monitor has no unique name, holds no name and has no rules -/
  monitors : ∀ c ∈ b.conns, c.isMonitor = true →
    c.unique = none ∧ ¬ b.names.Holding c.id ∧ c.rules.getD [] = []

theorem Broker.Polite.introduced (h : b.Polite) : b.Introduced := by
  have hd : b.ids.Nodup := ids_bus b ▸ h.known.live.nodup
  have hface (c : Conn) (hc : c ∈ b.conns) : b.bus.face? c.id = some c.face := by
    have hconn : b.conn? c.id = some c := lookup_of_mem hd hc
    rw [face?_bus, hconn]
    rfl
  have hunique (c : Conn) (hc : c ∈ b.conns) : b.bus.uniqueOf c.id = c.unique := by
    rw [Bus.uniqueOf, hface c hc]
    rfl
  have hknown (c : Conn) (hc : c ∈ b.conns) (hstate : b.names.Holding c.id ∨ c.rules.getD [] ≠ [] ∨ b.HeldFor c.id) :
      c.unique.isSome = true := by
    rcases hstate with hholds | hrules | hheld
    · rw [← hunique c hc]
      exact h.known.holders c.id hholds
    · exact (h.known.decent c.id c.face (hface c hc)).ruled hrules
    · rw [← hunique c hc]
      exact h.held c.id (List.mem_map_of_mem hc) hheld
  refine ⟨fun c hc => (h.known.agree c.id).trans (hunique c hc), hknown, fun n id howner => ?_, fun c hc hmon => ?_⟩
  · have hholds := holding_of_owner howner
    obtain ⟨c, hc⟩ := exists_conn (h.known.live.holders id hholds)
    have hmem := mem_of_lookup hc
    obtain rfl : c.id = id := key_of_lookup hc
    obtain ⟨u, hu⟩ := isSome_iff_exists.mp (hknown c hmem (.inl hholds))
    exact ⟨c, u, hc, hu, by rw [← hu, ← hunique c hmem]; exact h.known.agree c.id⟩
  · have hnone : c.unique = none := (h.known.decent c.id c.face (hface c hc)).monitor hmon
    have hstateless : ¬ (b.names.Holding c.id ∨ c.rules.getD [] ≠ [] ∨ b.HeldFor c.id) := by
      intro hstate
      have hsome := hknown c hc hstate
      rw [hnone] at hsome
      cases hsome
    exact ⟨hnone, fun hholds => hstateless (.inl hholds), by
      by_contra hrules
      exact hstateless (.inr (.inl hrules))⟩

/-- In every run of civil steps, everyone who holds a name, has match rules or has a call held has
said `Hello`, owners can be told by their unique names, and monitors have given theirs up. -/
theorem introduced_of_reaches {k : Config} {b : Broker} (h : Run.Reaches step Broker.Civil (start k) b) :
    b.Introduced :=
  (h.invariant Broker.Polite (polite_start k) fun _ _ hu hi => hu.step hi).introduced

def greetsFirst : List Input :=
  joins 1 ++ sends 1 (driverBytes "RequestName" "a.b") 0

theorem introduced_greetsFirst :
    (busAfter greetsFirst).names.owner (cstr "a.b") = some 1 ∧ (busAfter greetsFirst).Introduced := by
  have hall : Run.AllOk step Broker.Civil (start stubConfig) greetsFirst := by decide +kernel
  exact ⟨by decide +kernel, introduced_of_reaches hall.reaches⟩

/-! ## The ways out -/

def callsFirst (member arg : String) : List Input :=
  connects 1 ++ sends 1 (driverBytes member arg) 0

/-- Before `Hello` a client can own a name, have a rule and have an activation held. -/
theorem early_calls_make_state : (Reachable stubConfig (busAfter (callsFirst "RequestName" "a.b")) ∧
        (busAfter (callsFirst "RequestName" "a.b")).names.owner (cstr "a.b") = some 1 ∧
        (busAfter (callsFirst "RequestName" "a.b")).conns.map Conn.unique = [none]) ∧
      ((busAfter (callsFirst "AddMatch" "type='signal'")).conns.map fun c => (c.unique, (c.rules.getD []).length)) =
        [(none, 1)] ∧
      ((callsFirst "StartServiceByName" "a.b").foldl step (start serviceConfig)).HeldFor 1 ∧
      ((callsFirst "StartServiceByName" "a.b").foldl step (start serviceConfig)).conns.map Conn.unique = [none] :=
  ⟨⟨reachable_busAfter _, by decide +kernel⟩, by decide +kernel⟩

end SchemaInit.Dbus
