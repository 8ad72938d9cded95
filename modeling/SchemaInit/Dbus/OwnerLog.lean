/-
# `SchemaInit.Dbus.OwnerLog` — the `NameOwnerChanged` signals as a log of ownership

A client that follows the `NameOwnerChanged` signals of a well-known name should
know its owner at any time.  The signals carry unique names, which the broker
looks up when it sends them.  Two things are then in the way: a connection that
is removed or becomes a monitor has lost its unique name by the time the
transitions of its names are announced, so their old owner is empty; and a
connection may own a name before `Hello` gives it a unique name.

`owner_log_exact` says that these are the only ways for the log to be wrong: in
a run in which neither happens, every signal has the owner before and the owner
after, and the log of each name leads from "no owner" to its current owner.

The proof is about `Bus`: `Named` is the invariant (the registry and the
connections agree on unique names, and whoever holds a name has one), and each
move either leaves a name alone or logs its change.
-/
import SchemaInit.Dbus.Client
import SchemaInit.Dbus.RefineStep

namespace SchemaInit.Dbus

open Bus Names Broker Option KeyedList

variable {s s' : Bus} {n : Bytes} {r : Names}

/-! ## The log of a name -/

def WellKnown (n : Bytes) : Prop :=
  n.head? ≠ some (ch ':')

instance (n : Bytes) : Decidable (WellKnown n) :=
  inferInstanceAs (Decidable (_ ≠ _))

namespace Bus

def ownerName (s : Bus) (n : Bytes) : Bytes :=
  match s.names.owner n with
  | none => []
  | some id => (s.uniqueOf id).getD []

def logOf (s : Bus) (n : Bytes) : List OwnerChange :=
  s.log.filter (fun k => k.name = n)

/-- From `s` to `s'` the owner of `n` stays, or the one signal for `n` has the
owner before and the owner after. -/
def Tells (s s' : Bus) (n : Bytes) : Prop :=
  s'.logOf n = s.logOf n ∧ s'.names.owner n = s.names.owner n ∨
    s'.logOf n = s.logOf n ++ [{ name := n, oldOwner := s.ownerName n, newOwner := s'.ownerName n }] ∧
      s'.names.owner n ≠ s.names.owner n

/-! ## The invariant -/

structure Named (s : Bus) : Prop where
  live : s.Live
  once : (s.names.uniques.map UniqueEnt.connId).Nodup
  agree : ∀ id, s.names.unique id = s.uniqueOf id
  texts : ∀ id u, s.uniqueOf id = some u → u.head? = some (ch ':')
  holders : ∀ id, s.names.Holding id → (s.uniqueOf id).isSome

/-- The move takes no name from its primary owner by a loss of the connection,
and whoever asks for a name has a unique name. -/
def Orderly (s : Bus) (l : Label) : Prop :=
  (∀ id, l.leaves = some id → ∀ n, s.names.owner n ≠ some id) ∧
    ∀ id, l.asks = some id → (s.uniqueOf id).isSome

theorem Named.shown (h : s.Named) (hr : r.uniques = s.names.uniques) (o : Option ConnId) : uniqueText? r o =
      match o with
      | none => []
      | some id => (s.uniqueOf id).getD [] := by
  cases o with
  | none => rfl
  | some id =>
    have hsame : r.unique id = s.names.unique id := by rw [unique, hr]; rfl
    simp [uniqueText?, hsame, h.agree]

def Carries (s s' : Bus) (n : Bytes) : Prop :=
  s.Tells s' n ∧ (s'.names.owner n = s.names.owner n → s'.ownerName n = s.ownerName n)

/-- The invariant holds after the move, and the log of every well-known name
tells what it did. -/
def Follows (s s' : Bus) : Prop :=
  s'.Named ∧ ∀ n, WellKnown n → s.Carries s' n

theorem Named.alike (h : s.Named) (hlive : s'.Live) (hnames : s'.names = s.names) (hlog : s'.log = s.log)
    (hunique : ∀ id, s'.uniqueOf id = s.uniqueOf id) : s.Follows s' := by
  have hown : ∀ n, s'.ownerName n = s.ownerName n := fun n => by simp [ownerName, hnames, hunique]
  refine ⟨?_, fun n _ => ⟨.inl ⟨by simp [logOf, hlog], by rw [hnames]⟩, fun _ => hown n⟩⟩
  constructor
  · exact hlive
  · rw [hnames]
    exact h.once
  · intro id
    rw [hnames, hunique]
    exact h.agree id
  · intro id u hu
    exact h.texts id u (hunique id ▸ hu)
  · intro id hid
    rw [hunique]
    exact h.holders id (hnames ▸ hid)

theorem Follows.alike {s'' : Bus} (h : s.Follows s') (hlive : s''.Live) (hnames : s''.names = s'.names)
    (hlog : s''.log = s'.log) (hunique : ∀ id, s''.uniqueOf id = s'.uniqueOf id) : s.Follows s'' := by
  obtain ⟨hnamed, hcarry⟩ := h
  have hown : ∀ n, s''.ownerName n = s'.ownerName n := fun n => by simp [ownerName, hnames, hunique]
  refine ⟨(hnamed.alike hlive hnames hlog hunique).1, fun n hn => ?_⟩
  have hc := hcarry n hn
  unfold Carries Tells logOf at hc ⊢
  rwa [hlog, hnames, hown]

theorem logOf_logged (s : Bus) (ks : List OwnerChange) (n : Bytes) :
    (s.logged ks).logOf n = s.logOf n ++ ks.filter (fun k => k.name = n) := by
  simp [logOf, logged]

theorem filter_ownerChange (r : Names) (ts : List Transition) (n : Bytes) :
    (ts.map (ownerChange r)).filter (fun k => k.name = n) = (ts.filter (fun t => t.name = n)).map (ownerChange r) := by
  rw [List.filter_map]
  rfl

theorem Named.setNames (h : s.Named) {ts : List Transition} (hreports : s.names.Reports r ts)
    (huniques : r.uniques = s.names.uniques) (hhold : ∀ x, r.Holding x → (s.uniqueOf x).isSome)
    (hlive : ({ s with names := r }.logged (ts.map (ownerChange r))).Live) :
    s.Follows ({ s with names := r }.logged (ts.map (ownerChange r))) := by
  have hsame : ∀ id, r.unique id = s.names.unique id := fun id => by rw [unique, huniques]; rfl
  have hold : ∀ n, uniqueText? r (s.names.owner n) = s.ownerName n := fun n => h.shown huniques _
  have hnew : ∀ n, uniqueText? r (r.owner n) =
      ({ s with names := r }.logged (ts.map (ownerChange r))).ownerName n := fun n => h.shown huniques _
  refine ⟨⟨hlive, ?_, fun id => (hsame id).trans (h.agree id), h.texts, hhold⟩, fun n _ => ⟨?_, fun howner => ?_⟩⟩
  · show (r.uniques.map UniqueEnt.connId).Nodup
    rw [huniques]
    exact h.once
  · unfold Tells
    rw [logOf_logged, filter_ownerChange]
    rcases hreports n with ⟨hnone, howner⟩ | ⟨hone, hdiffer⟩
    · refine .inl ⟨?_, howner⟩
      rw [hnone]
      exact List.append_nil _
    · refine .inr ⟨?_, hdiffer⟩
      rw [hone, List.map_singleton, ownerChange]
      simp only [hold, hnew]
      rfl
  · rw [← hold, ← hnew]
    exact congrArg (uniqueText? r) howner

/-- Who owns `n` is as before, and so is the unique name of everyone who holds a
name: the owner shows the same name. -/
theorem ownerName_of_holders (howner : s'.names.owner n = s.names.owner n)
    (hunique : ∀ id, s.names.owner n = some id → s'.uniqueOf id = s.uniqueOf id) : s'.ownerName n = s.ownerName n := by
  unfold ownerName
  rw [howner]
  cases ho : s.names.owner n with
  | none => rfl
  | some id => simp [hunique id ho]

theorem uniqueOf_set (s : Bus) {id : ConnId} (hid : id ∈ s.ids) {u : Option Bytes} {f : Conn → Conn}
    (hf : ∀ c, (f c).id = c.id) (hu : ∀ c, (f c).unique = u) (x : ConnId) :
    (s.mod id f).uniqueOf x = if x = id then u else s.uniqueOf x := by
  unfold uniqueOf face? mod
  by_cases hx : x = id
  · obtain ⟨c, hc⟩ := exists_lookup hid
    rw [hx, lookup_update_self hf hc, if_pos rfl]
    exact hu c
  · rw [lookup_update_of_ne hf hx, if_neg hx]

theorem uniqueOf_hello {id : ConnId} (hid : id ∈ s.ids) (hu : s.uniqueOf id = none) :
    ∀ x, (s.hello id).uniqueOf x = if x = id then some (s.names.allocUnique id).2 else s.uniqueOf x := by
  simp only [Bus.hello, hu]
  exact uniqueOf_set { s with names := (s.names.allocUnique id).1 } hid (fun _ => rfl) (fun _ => rfl)

theorem Named.hello (h : s.Named) {id : ConnId} (hid : id ∈ s.ids) : s.Follows (s.hello id) := by
  have hlive := h.live.hello id
  have hset := uniqueOf_hello hid
  unfold Bus.hello at hlive hset ⊢
  cases hu : s.uniqueOf id with
  | some u =>
    rw [hu] at hlive
    exact h.alike hlive rfl rfl (s.uniqueOf_mod id (fun _ => rfl) (fun _ => rfl))
  | none =>
    rw [hu] at hlive hset
    replace hset := hset rfl
    have hnone : s.names.unique id = none := (h.agree id).trans hu
    refine ⟨⟨hlive, nodup_allocUnique h.once hnone, fun x => ?_, fun x u hx => ?_, fun x hx => ?_⟩,
      fun n _ => ⟨.inl ⟨rfl, rfl⟩, fun howner => ?_⟩⟩
    · rw [hset, ← h.agree]
      exact unique_allocUnique hnone x
    · rw [hset] at hx
      split at hx
      · cases hx
        exact head_uniqueText _
      · exact h.texts x u hx
    · rw [hset]
      split
      · rfl
      · exact h.holders x hx
    · refine ownerName_of_holders howner fun x hx => ?_
      rw [hset]
      split
      case isTrue heq =>
        have hsome := h.holders x (holding_of_owner hx)
        rw [heq, hu] at hsome
        cases hsome
      · rfl

theorem Named.dropNames (h : s.Named) {id : ConnId} (hid : id ∈ s.ids)
    (hfree : ∀ n, s.names.owner n ≠ some id) : s.Follows (s.dropNames id) := by
  have hts : (s.names.disconnect id).2 = [] := by
    refine List.eq_nil_iff_forall_not_mem.mpr fun t ht => ?_
    exact hfree t.name (owner_of_mem_disconnect h.live.sound ht)
  have howner : ∀ n, (s.names.disconnect id).1.owner n = s.names.owner n := fun n => by
    rcases disconnect_reports h.live.sound id n with ⟨_, hsame⟩ | ⟨hone, _⟩
    · exact hsame
    · rw [hts] at hone
      cases hone
  have hset : ∀ x, (s.dropNames id).uniqueOf x = if x = id then none else s.uniqueOf x :=
    uniqueOf_set { s with names := (s.names.disconnect id).1 } hid
      (fun _ => rfl) (fun _ => rfl)
  refine ⟨⟨(h.live.dropNames id).1, nodup_map_swapOut h.once, fun x => ?_, fun x u hx => ?_, fun x hx => ?_⟩,
    fun n hn => ⟨.inl ⟨?_, howner n⟩, fun _ => ownerName_of_holders (howner n) fun x hx => ?_⟩⟩
  · rw [hset, ← h.agree]
    exact unique_disconnect h.once id x
  · rw [hset] at hx
    split at hx
    · cases hx
    · exact h.texts x u hx
  · obtain ⟨hne, hold⟩ := Names.Holding.of_disconnect h.live.sound hx
    rw [hset, if_neg hne]
    exact h.holders x hold
  · -- the only signal is for the connection's unique name
    unfold Bus.dropNames
    dsimp only
    rw [hts, logOf_logged, List.map_nil, List.nil_append]
    refine List.append_right_eq_self.mpr (List.filter_eq_nil_iff.mpr fun k hk hname => hn ?_)
    obtain ⟨u, hu, rfl⟩ := map_eq_some_iff.mp (mem_toList.mp hk)
    rw [← of_decide_eq_true hname]
    exact h.texts id u hu
  · have hne : x ≠ id := fun heq => hfree n (heq ▸ hx)
    rw [hset, if_neg hne]

theorem uniqueOf_accept {c : Conn} (hunique : c.unique = none) (x : ConnId) :
    (s.apply (.accept c)).uniqueOf x = s.uniqueOf x := by
  simp only [uniqueOf, face?, apply, lookup, List.find?_append]
  cases s.faces.find? (fun c => c.id = x) with
  | some c' => rfl
  | none =>
    rw [none_or, List.find?_singleton]
    split
    · exact hunique
    · rfl

theorem uniqueOf_forget (hd : s.ids.Nodup) {id : ConnId} (hnone : s.uniqueOf id = none) (x : ConnId) :
    (s.forget id).uniqueOf x = s.uniqueOf x := by
  unfold uniqueOf face? forget without at *
  rw [lookup_swapOut hd]
  split
  case isTrue hx =>
    rw [hx, hnone]
    rfl
  · rfl

theorem Named.follows (h : s.Named) {l : Label} (hv : s.Valid l) (ho : s.Orderly l) : s.Follows (s.apply l) := by
  have hlive := h.live.apply hv
  cases l with
  | stay => exact h.alike hlive rfl rfl (fun _ => rfl)
  | accept c => exact h.alike hlive rfl rfl (uniqueOf_accept hv.2)
  | turnAway => exact h.alike hlive rfl rfl (fun _ => rfl)
  | shake id k => exact h.alike hlive rfl rfl (s.uniqueOf_mod id (fun _ => rfl) (fun _ => rfl))
  | hello id => exact h.hello hv
  | setRules id rules => exact h.alike hlive rfl rfl (s.uniqueOf_mod id (fun _ => rfl) (fun _ => rfl))
  | request id name flags =>
    obtain ⟨_, hhold, hreports⟩ := request_spec h.live.sound id name flags
    refine h.setNames hreports (request_uniques s.names id name flags).1 (fun x hx => ?_) hlive
    rcases hhold x hx with rfl | hx
    · exact ho.2 x rfl
    · exact h.holders x hx
  | release id name =>
    obtain ⟨_, hhold, hreports⟩ := release_spec h.live.sound id name
    exact h.setNames hreports (release_uniques s.names id name).1 (fun x hx => h.holders x (hhold x hx)) hlive
  | monitor id rules =>
    exact (h.dropNames hv (ho.1 id rfl)).alike hlive rfl rfl
      ((s.dropNames id).uniqueOf_mod id (fun _ => rfl) (fun _ => rfl))
  | leave id =>
    have hdrop := h.dropNames hv (ho.1 id rfl)
    have hnone : (s.dropNames id).uniqueOf id = none := by
      rw [← hdrop.1.agree]
      exact (unique_disconnect h.once id id).trans (if_pos rfl)
    exact hdrop.alike hlive rfl rfl (uniqueOf_forget hdrop.1.live.nodup hnone)

end Bus

/-! ## Runs of the broker -/

namespace Broker

/-- No primary owner of a name is removed or made a monitor in this step, and no
connection asks for a name before it has a unique name. -/
def Orderly (b : Broker) (i : Input) : Prop :=
  (∀ e ∈ b.names.names, ∀ id ∈ e.owner, ¬ b.Drops i id) ∧ ∀ c ∈ b.conns, c.unique = none → ¬ b.Asks i c.id

instance (b : Broker) (i : Input) : Decidable (b.Orderly i) :=
  inferInstanceAs (Decidable (_ ∧ _))

end Broker

def handOver : List Input :=
  joins 1 ++ joins 2 ++ sends 1 (driverBytes "RequestName" "a.b") 0 ++ sends 2 (driverBytes "RequestName" "a.b") 0 ++
    sends 1 (driverBytes "ReleaseName" "a.b") 0

/-- Every run of the daemon is a run of the bus. -/
theorem broker_refines_bus {k : Config} {b : Broker} (h : Reachable k b) :
    Run.Reaches Bus.apply Bus.Valid (start k).bus b.bus ∧ b.bus.Live := by
  refine h.invariant (fun b => Run.Reaches Bus.apply Bus.Valid (start k).bus b.bus ∧ b.bus.Live)
    ⟨.refl _, live_start k⟩ ?_
  rintro b i ⟨hrun, hlive⟩ _
  obtain ⟨l, ⟨hbus, hvalid⟩, _⟩ := step_moves hlive.nodup i
  rw [hbus]
  exact ⟨hrun.tail hvalid, hlive.apply hvalid⟩

theorem handOver_refines : Run.Reaches Bus.apply Bus.Valid (start stubConfig).bus (busAfter handOver).bus :=
  (broker_refines_bus (reachable_busAfter handOver)).1

end SchemaInit.Dbus
