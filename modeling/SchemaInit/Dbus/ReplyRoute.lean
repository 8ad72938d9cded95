/-
# `SchemaInit.Dbus.ReplyRoute` — where a reply goes

A reply bypasses the policy and goes to the caller the reply table has for it.
Its destination is to pick the caller out of those that wait for the same serial
from the same callee.  A destination that names no live connection picks no one:
the table is then searched for the serial alone, and what is found may be a
different caller's entry.  `reply_only_named_iff` says that this is the one way
for a reply to go astray.
-/
import SchemaInit.Dbus.Client
import SchemaInit.Dbus.RefineStep

namespace SchemaInit.Dbus

open Broker Option List

/-- The live connection `id` is the one `dest` names: by its unique name, or as
the primary owner of a well-known one. -/
def Broker.Designates (b : Broker) (dest : Bytes) (id : ConnId) : Prop :=
  ∃ c ∈ b.conns, c.id = id ∧ (c.unique = some dest ∨ b.names.owner dest = some id)

instance (b : Broker) (dest : Bytes) (id : ConnId) : Decidable (b.Designates dest id) :=
  inferInstanceAs (Decidable (∃ c ∈ b.conns, c.id = id ∧ (c.unique = some dest ∨ b.names.owner dest = some id)))

/-- A reply for `dest` goes to no one else; if `dest` is gone it goes to nobody,
and everyone still waits for what they waited for. -/
def Broker.OnlyNamed (b : Broker) (dest : Bytes) (r : RouteResult) : Prop :=
  (∀ t ∈ r.targets, b.Designates dest t) ∧
    ((∀ t, ¬ b.Designates dest t) → r.targets = [] ∧ r.replies = b.replies)

def ReplyEnt.WaitsFor (e : ReplyEnt) (sender : Conn) (msg : WireMsg) : Prop :=
  e.live = true ∧ e.callee = sender.id ∧ msg.replySerial = some e.serial

/-! ## Resolving the destination -/

theorem Broker.designates_of_routeResolve {b : Broker} (hl : b.bus.Live) {dest : Bytes} {id : ConnId}
    (h : routeResolve b.names b.conns (some dest) = some id) : b.Designates dest id := by
  unfold routeResolve at h
  dsimp only at h
  split at h
  case h_1 c hc =>
    cases h
    refine ⟨c, mem_of_find?_eq_some hc, rfl, .inl ?_⟩
    simpa using find?_some hc
  · obtain ⟨c, hc⟩ := exists_conn (hl.holders id (Names.holding_of_owner h))
    exact ⟨c, KeyedList.mem_of_lookup hc, KeyedList.key_of_lookup hc, .inr h⟩

theorem Broker.not_designates_of_routeResolve {b : Broker} {dest : Bytes}
    (h : routeResolve b.names b.conns (some dest) = none) (id : ConnId) : ¬ b.Designates dest id := by
  unfold routeResolve at h
  dsimp only at h
  split at h
  · cases h
  case h_2 hfind =>
    rintro ⟨c, hc, _, hunique | howner⟩
    · simpa [hunique] using find?_eq_none.mp hfind c hc
    · rw [h] at howner
      cases howner

/-! ## The reply table -/

theorem repliesMatch_spec (t : Replies) (sender : ConnId) (serial : Nat) (want : Option ConnId) :
    (∃ e ∈ t, e.answers sender serial want = true ∧ (repliesMatch t sender serial want).2 = some e.caller) ∨
      ((∀ e ∈ t, e.answers sender serial want = false) ∧ repliesMatch t sender serial want = (t, none)) := by
  unfold repliesMatch
  cases hidx : t.findIdx? (fun r => r.answers sender serial want) with
  | none => exact .inr ⟨findIdx?_eq_none_iff.mp hidx, rfl⟩
  | some i =>
    obtain ⟨hlt, hanswers, _⟩ := findIdx?_eq_some_iff_getElem.mp hidx
    exact .inl ⟨t[i], getElem_mem hlt, hanswers, by simp [hlt]⟩

theorem ReplyEnt.caller_of_answers {e : ReplyEnt} {sender : ConnId} {serial : Nat} {id : ConnId}
    (h : e.answers sender serial (some id) = true) : e.caller = id := by
  simp only [ReplyEnt.answers, isNone_some, Bool.false_or, Bool.and_eq_true, decide_eq_true_eq, some.injEq] at h
  exact h.2.symm

theorem ReplyEnt.answers_none_iff {e : ReplyEnt} {sender : Conn} {msg : WireMsg} {serial : Nat}
    (h : msg.replySerial = some serial) : e.answers sender.id serial none = true ↔ e.WaitsFor sender msg := by
  simp [ReplyEnt.answers, ReplyEnt.WaitsFor, h, eq_comm (a := serial), and_assoc]

/-! ## The reply -/

theorem routeTargets_of_isReply {msg : WireMsg} (h : msg.isReply = true) (sender : Conn) (names : Names)
    (all : List Conn) (pol : Policy) (replies : Replies) (now : Int) :
    routeTargets msg sender names all pol replies now = routeReply msg sender names all replies :=
  if_pos h

theorem routeReply_eq (msg : WireMsg) (sender : Conn) (names : Names) (all : List Conn) (replies : Replies) :
    let m := repliesMatch replies sender.id (msg.replySerial.getD 0) (routeResolve names all msg.destination)
    (routeReply msg sender names all replies).targets = m.2.toList ∧
      (routeReply msg sender names all replies).replies = m.1 :=
  ⟨rfl, rfl⟩

/-- In every state the broker gets to, a reply with a destination goes to the
connection it names or to nobody, exactly if that connection is there or no
one waits for this serial. -/
theorem reply_only_named_iff {k : Config} {b : Broker} (hb : Reachable k b) {msg : WireMsg} {dest : Bytes}
    (hreply : msg.isReply = true) (hdest : msg.destination = some dest) (sender : Conn) (now : Int) :
    b.OnlyNamed dest (routeTargets msg sender b.names b.conns b.policy b.replies now) ↔
      (∃ t, b.Designates dest t) ∨ ∀ e ∈ b.replies, ¬ e.WaitsFor sender msg := by
  obtain ⟨serial, hserial⟩ : ∃ serial, msg.replySerial = some serial := by
    simp only [WireMsg.isReply, Bool.and_eq_true] at hreply
    exact isSome_iff_exists.mp hreply.2
  rw [routeTargets_of_isReply hreply]
  unfold Broker.OnlyNamed
  rw [(routeReply_eq ..).1, (routeReply_eq ..).2, hdest, hserial, getD_some]
  cases hresolve : routeResolve b.names b.conns (some dest) with
  | some id =>
    have hid := designates_of_routeResolve (live_of_reachable hb) hresolve
    refine iff_of_true ⟨fun t ht => ?_, fun hnone => absurd hid (hnone id)⟩ (.inl ⟨id, hid⟩)
    rcases repliesMatch_spec b.replies sender.id serial (some id) with ⟨e, _, hanswers, hcaller⟩ | ⟨_, hnothing⟩
    · rw [hcaller, mem_toList, some.injEq] at ht
      rw [← ht, ReplyEnt.caller_of_answers hanswers]
      exact hid
    · rw [hnothing] at ht
      cases ht
  | none =>
    have hnone := not_designates_of_routeResolve hresolve
    rcases repliesMatch_spec b.replies sender.id serial none with ⟨e, hmem, hanswers, hcaller⟩ | ⟨hno, hnothing⟩
    · -- someone else's entry is found, and no one is designated
      refine iff_of_false (fun h => ?_) ?_
      · have := (h.2 hnone).1
        rw [hcaller] at this
        cases this
      · rintro (⟨t, ht⟩ | hwaits)
        · exact hnone t ht
        · exact hwaits e hmem ((ReplyEnt.answers_none_iff hserial).mp hanswers)
    · rw [hnothing]
      refine iff_of_true ⟨fun t ht => (nomatch ht), fun _ => ⟨rfl, rfl⟩⟩ (.inr fun e he hwaits => ?_)
      have := (ReplyEnt.answers_none_iff hserial).mpr hwaits
      rw [hno e he] at this
      cases this

/-! ## A reply that goes astray -/

def twoCallers : List Input :=
  joins 1 ++ joins 2 ++ joins 3 ++ sends 1 (clientBytes (methodCall ":1.3" "Get" 5) []) 0 ++
    sends 2 (clientBytes (methodCall ":1.3" "Get" 5) []) 0

/-- While both are there, the reply to the first goes to the first. -/
theorem reply_to_first : (busAfter twoCallers).conns ≠ [] ∧ ∀ sender ∈ (busAfter twoCallers).conns,
      (busAfter twoCallers).OnlyNamed (cstr ":1.1")
        (routeTargets (methodReturn ":1.1" 9 5) sender (busAfter twoCallers).names (busAfter twoCallers).conns
          (busAfter twoCallers).policy (busAfter twoCallers).replies 0) :=
  ⟨by decide +kernel, fun sender _ =>
    (reply_only_named_iff (reachable_busAfter twoCallers) (by decide) rfl sender 0).mpr (.inl ⟨1, by decide +kernel⟩)⟩

/-- After the first hangs up, the reply to it goes to the second. -/
theorem reply_to_second : ∃ b, Reachable stubConfig b ∧ (∀ t, ¬ b.Designates (cstr ":1.1") t) ∧ ∃ sender ∈ b.conns,
      (routeTargets (methodReturn ":1.1" 9 5) sender b.names b.conns b.policy b.replies 0).targets = [2] ∧
        ¬ b.OnlyNamed (cstr ":1.1")
          (routeTargets (methodReturn ":1.1" 9 5) sender b.names b.conns b.policy b.replies 0) := by
  have hgone : routeResolve (busAfter (twoCallers ++ hangsUp 1)).names (busAfter (twoCallers ++ hangsUp 1)).conns
      (some (cstr ":1.1")) = none := by decide +kernel
  have hnone := not_designates_of_routeResolve hgone
  have hsecond : ∃ sender ∈ (busAfter (twoCallers ++ hangsUp 1)).conns,
      (routeTargets (methodReturn ":1.1" 9 5) sender (busAfter (twoCallers ++ hangsUp 1)).names
        (busAfter (twoCallers ++ hangsUp 1)).conns (busAfter (twoCallers ++ hangsUp 1)).policy
        (busAfter (twoCallers ++ hangsUp 1)).replies 0).targets = [2] := by decide +kernel
  obtain ⟨sender, hmem, htargets⟩ := hsecond
  refine ⟨_, reachable_busAfter (twoCallers ++ hangsUp 1), hnone, sender, hmem, htargets, fun h => ?_⟩
  rw [(h.2 hnone).1] at htargets
  cases htargets

end SchemaInit.Dbus
