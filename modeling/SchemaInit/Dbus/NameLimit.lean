/-
# `SchemaInit.Dbus.NameLimit` — how large the name registry gets

The driver lets a connection hold 512 names.  The registry keeps the entry of a name when
its last holder is gone, though, so what the limit bounds is the names held, not the
entries: `registry_grows` has one client that asks for a name and gives it back, again and
again, and there is no bound.

`registry_bounded` says what the limit is good for.  As long as no new name is asked for
while an entry stands empty, the entries are at most 512 for each connection that was ever
open at the same time.  Every entry has a holder when a new one is made, so the entries
are counted by their holders (`length_le_sum`), and none of these is over the limit.
-/
import SchemaInit.Dbus.Introduced

namespace SchemaInit.Dbus

open Names List Broker

variable {r : Names} {name : Bytes} {s : Bus} {n peak : Nat} {b : Broker} {c : Conn}

/-! ## How many names a connection holds -/

def heldBy (x : ConnId) (hs : List Holder) : Nat :=
  if x ∈ holderIds hs then 1 else 0

theorem heldBy_mono {x : ConnId} {hs hs' : List Holder} (h : x ∈ holderIds hs' → x ∈ holderIds hs) :
    heldBy x hs' ≤ heldBy x hs := by
  unfold heldBy
  split
  case isTrue hx => rw [if_pos (h hx)]
  · exact Nat.zero_le _

theorem heldBy_le_one (x : ConnId) (hs : List Holder) : heldBy x hs ≤ 1 := by
  unfold heldBy
  split
  · exact le_rfl
  · exact Nat.zero_le _

namespace Names

theorem countHeld_eq_sum (r : Names) (x : ConnId) : r.countHeld x = (r.names.map fun e => heldBy x e.holders).sum := by
  unfold countHeld
  induction r.names with
  | nil => rfl
  | cons e l ih =>
    have hiff : (e.holders.any fun h => decide (h.connId = x)) = true ↔ x ∈ holderIds e.holders := by
      simp [holderIds]
    rw [countP_cons, ih, map_cons, sum_cons, heldBy, Nat.add_comm]
    simp [hiff]

theorem countHeld_setHolders (h : r.Sound) {e : NameEnt} (hfind : r.find name = some e)
    (hs : List Holder) (x : ConnId) :
    (r.setHolders name hs).countHeld x + heldBy x e.holders = r.countHeld x + heldBy x hs := by
  rw [countHeld_eq_sum, countHeld_eq_sum]
  exact KeyedList.sum_update h.distinct (fun e => heldBy x e.holders) hfind

theorem length_setHolders (r : Names) (name : Bytes) (hs : List Holder) :
    (r.setHolders name hs).names.length = r.names.length :=
  length_map _

theorem countHeld_intern (r : Names) (name : Bytes) (x : ConnId) : (r.intern name).countHeld x = r.countHeld x := by
  rcases r.intern_cases name with ⟨e, _, heq⟩ | ⟨_, heq⟩
  · rw [heq]
  · simp [heq, countHeld]

theorem length_request (r : Names) (c : ConnId) (name : Bytes) (flags : ReqFlags) :
    (r.request c name flags).1.names.length = r.names.length + if r.find name = none then 1 else 0 := by
  show ((r.intern name).setHolders name _).names.length = _
  rw [length_setHolders]
  rcases r.intern_cases name with ⟨e, hfind, heq⟩ | ⟨hnone, heq⟩
  · rw [heq, hfind]
    rfl
  · rw [heq, if_pos hnone]
    exact length_append

theorem countHeld_request (h : r.Sound) (c : ConnId) (name : Bytes) (flags : ReqFlags) (x : ConnId) :
    (r.request c name flags).1.countHeld x ≤ r.countHeld x + (if x = c ∧ r.holds c name = false then 1 else 0) := by
  obtain ⟨e, hfind, -, hmem⟩ := r.find_intern name
  have hsound := h.intern name
  obtain ⟨-, hids, -⟩ := requestHolders_spec e.holders c flags (hsound.once e hmem)
  have hcount := countHeld_setHolders hsound hfind (requestHolders e.holders c flags).1 x
  rw [countHeld_intern] at hcount
  have hrequest : (r.request c name flags).1 =
      (r.intern name).setHolders name (requestHolders e.holders c flags).1 := by
    simp [request, hfind]
  rw [hrequest]
  by_cases hx : x = c ∧ r.holds c name = false
  · rw [if_pos hx]
    have := heldBy_le_one x (requestHolders e.holders c flags).1
    omega
  · rw [if_neg hx]
    have hmono : heldBy x (requestHolders e.holders c flags).1 ≤ heldBy x e.holders := by
      refine heldBy_mono fun hmem' => ?_
      rcases hids x hmem' with rfl | hold
      · -- the caller held it before
        have hholds : r.holds x name = true := by simpa using hx
        rcases r.intern_cases name with ⟨e', hfind', heq⟩ | ⟨hnone, -⟩
        · rw [heq, hfind'] at hfind
          cases hfind
          simpa [holds, hfind', holderIds] using hholds
        · simp [holds, hnone] at hholds
      · exact hold
    omega

theorem release_shrinks (h : r.Sound) (c : ConnId) (name : Bytes) :
    (r.release c name).1.names.length = r.names.length ∧ ∀ x, (r.release c name).1.countHeld x ≤ r.countHeld x := by
  rcases r.release_cases c name with ⟨res, heq⟩ | ⟨e, i, hfind, hidx, heq⟩
  · rw [heq]
    exact ⟨rfl, fun _ => le_rfl⟩
  · rw [heq]
    refine ⟨length_setHolders .., fun x => ?_⟩
    obtain ⟨-, -, hids, -⟩ := eraseIdx_spec hidx (h.once e (KeyedList.mem_of_lookup hfind))
    have hcount := countHeld_setHolders h hfind (e.holders.eraseIdx i) x
    have := heldBy_mono (hids x)
    dsimp only
    omega

theorem disconnect_shrinks (h : r.Sound) (c : ConnId) :
    (r.disconnect c).1.names.length = r.names.length ∧ ∀ x, (r.disconnect c).1.countHeld x ≤ r.countHeld x := by
  refine ⟨length_map _, fun x => ?_⟩
  rw [countHeld_eq_sum, countHeld_eq_sum]
  simp only [disconnect, map_map]
  refine sum_le_sum fun e he => heldBy_mono ?_
  obtain ⟨-, -, -, hids, -⟩ := disconnectEnt_spec c (h.once e he)
  exact hids x

theorem length_le_sum {ids : List ConnId} (h : ∀ e ∈ r.names, ∃ x ∈ ids, x ∈ holderIds e.holders) :
    r.names.length ≤ (ids.map r.countHeld).sum := by
  have hsum : (ids.map r.countHeld).sum = (ids.map fun x => (r.names.map fun e => heldBy x e.holders).sum).sum := by
    rw [map_congr_left fun x _ => r.countHeld_eq_sum x]
  rw [hsum]
  generalize r.names = l at h
  induction l with
  | nil => exact Nat.zero_le _
  | cons e l ih =>
    obtain ⟨x, hx, hheld⟩ := h e (mem_cons_self ..)
    have hfirst : 1 ≤ (ids.map fun x => heldBy x e.holders).sum := by
      have := KeyedList.le_sum (fun x => heldBy x e.holders) hx
      rwa [heldBy, if_pos hheld] at this
    have hrest := ih fun e' he' => h e' (mem_cons_of_mem _ he')
    simp only [map_cons, sum_cons, sum_map_add, length_cons]
    omega

end Names

/-! ## The bus -/

namespace Bus

/-- At most 512 names for each connection, and at most 512 entries for each of the `peak` that were open. -/
structure Bounded (s : Bus) (peak : Nat) : Prop where
  live : s.Live
  capped : ∀ id, s.names.countHeld id ≤ maxNamesPerConn
  faces : s.faces.length ≤ peak
  entries : s.names.names.length ≤ maxNamesPerConn * peak

/-- A request is within the limit, and a new name is asked for only while every entry is held. -/
def Within (s : Bus) : Label → Prop
  | .request id name _ =>
    (s.names.holds id name = false → s.names.countHeld id < maxNamesPerConn) ∧
      (s.names.find name = none → ∀ e ∈ s.names.names, e.holders ≠ [])
  | _ => True

theorem Bounded.of_shrinks {s' : Bus} (h : s.Bounded peak) (hlive : s'.Live)
    (hlength : s'.names.names.length = s.names.names.length)
    (hcount : ∀ x, s'.names.countHeld x ≤ s.names.countHeld x) : s'.Bounded (max peak s'.faces.length) where
  live := hlive
  capped := fun id => (hcount id).trans (h.capped id)
  faces := le_max_right ..
  entries := by
    rw [hlength]
    exact h.entries.trans (Nat.mul_le_mul_left _ (le_max_left ..))

theorem Bounded.request (h : s.Bounded peak) {id : ConnId} {flags : ReqFlags}
    (hv : s.Valid (.request id name flags)) (hw : s.Within (.request id name flags)) :
    (s.apply (.request id name flags)).Bounded (max peak (s.apply (.request id name flags)).faces.length) := by
  obtain ⟨hroom, hheld⟩ := hw
  have hpeak : max peak (s.apply (.request id name flags)).faces.length = peak := max_eq_left h.faces
  have hlength := s.names.length_request id name flags
  constructor
  · exact h.live.apply hv
  · intro x
    have hcount := countHeld_request h.live.sound id name flags x
    show (s.names.request id name flags).1.countHeld x ≤ _
    have hcap := h.capped x
    split at hcount
    case isTrue hx =>
      have := hroom hx.2
      rw [← hx.1] at this
      omega
    · omega
  · exact le_max_right ..
  · rw [hpeak]
    show (s.names.request id name flags).1.names.length ≤ _
    rw [hlength]
    split
    case isTrue hnew =>
      -- every entry is held by someone connected, and the caller is not at its limit
      have hsum : s.names.names.length ≤ (s.ids.map s.names.countHeld).sum := by
        refine length_le_sum fun e he => ?_
        obtain ⟨holder, hmem⟩ := exists_mem_of_ne_nil _ (hheld hnew e he)
        have hid : holder.connId ∈ holderIds e.holders := mem_map_of_mem hmem
        exact ⟨holder.connId, h.live.holders _ ⟨e, he, hid⟩, hid⟩
      have hperm := perm_cons_erase hv.1
      have hcaller : s.names.countHeld id < maxNamesPerConn := hroom (by simp [holds, hnew])
      have hothers : ((s.ids.erase id).map s.names.countHeld).sum ≤ (s.ids.erase id).length * maxNamesPerConn := by
        have := sum_le_card_nsmul ((s.ids.erase id).map s.names.countHeld) maxNamesPerConn (by
          intro n hn
          obtain ⟨x, -, rfl⟩ := mem_map.mp hn
          exact h.capped x)
        simpa using this
      have hids : (s.ids.erase id).length + 1 ≤ peak := by
        have : s.ids.length ≤ peak := (length_map _).trans_le h.faces
        rw [hperm.length_eq] at this
        simpa using this
      rw [(hperm.map s.names.countHeld).sum_eq, map_cons, sum_cons] at hsum
      have hmul := Nat.mul_le_mul_left maxNamesPerConn hids
      rw [Nat.mul_add, Nat.mul_comm maxNamesPerConn (s.ids.erase id).length] at hmul
      omega
    · exact h.entries

theorem Bounded.apply (h : s.Bounded peak) {l : Label} (hv : s.Valid l) (hw : s.Within l) :
    (s.apply l).Bounded (max peak (s.apply l).faces.length) := by
  have hlive := h.live.apply hv
  cases l with
  | hello id =>
    have hnames : (s.apply (.hello id)).names.names = s.names.names := by
      simp only [Bus.apply, Bus.hello]
      split
      · rfl
      · rfl
    refine h.of_shrinks hlive (congrArg List.length hnames) fun x => ?_
    rw [countHeld, hnames, ← countHeld]
  | request id name flags => exact h.request hv hw
  | release id name =>
    obtain ⟨hlength, hcount⟩ := release_shrinks h.live.sound id name
    exact h.of_shrinks hlive hlength hcount
  | monitor id rules =>
    obtain ⟨hlength, hcount⟩ := disconnect_shrinks h.live.sound id
    exact h.of_shrinks hlive hlength hcount
  | leave id =>
    obtain ⟨hlength, hcount⟩ := disconnect_shrinks h.live.sound id
    exact h.of_shrinks hlive hlength hcount
  | _ => exact h.of_shrinks hlive rfl fun _ => le_rfl

end Bus

/-! ## Runs of calls -/

def DriverCall.asksFor (call : DriverCall) (name : Bytes) : Prop :=
  call.member = some (cstr "RequestName") ∧ ∃ flags rest, call.args = .str name :: .u32 flags :: rest

namespace Broker

theorem driverDispatch_moves (env : Env) (hid : c.id ∈ b.bus.ids) (call : DriverCall) :
    ∃ l, Moves b (b.driverDispatch env c call).1 l ∧ ∀ id name flags, l = .request id name flags →
      call.asksFor name ∧ (b.names.holds id name = false → b.names.countHeld id < maxNamesPerConn) := by
  by_cases hmember : call.member = some (cstr "RequestName")
  · have hstay {b' : Broker} (h : b'.bus = b.bus) : ∃ l, Moves b b' l ∧ ∀ id name flags, l = .request id name flags →
        call.asksFor name ∧ (b.names.holds id name = false → b.names.countHeld id < maxNamesPerConn) :=
      ⟨.stay, .stay h, fun _ _ _ h => (nomatch h)⟩
    have hintro : ¬ (cstr "RequestName" = cstr "Introspect" ∧
        (call.interface = none ∨ call.interface = some (cstr "org.freedesktop.DBus.Introspectable"))) := by
      rintro ⟨h, -⟩
      revert h
      decide
    have hm : Member.ofBytes (cstr "RequestName") = some .requestName := by decide
    simp only [driverDispatch, hmember, if_neg hintro, hm]
    split
    · exact hstay (talk_driverProperties env b ..).steady.bus
    · simp only [driverMember]
      split
      next name flags rest hargs =>
        rcases requestName_moves env hid call name flags with h | ⟨h, hroom⟩
        · exact hstay h
        · refine ⟨_, h, ?_⟩
          rintro id name' flags' ⟨⟩
          exact ⟨⟨hmember, flags, rest, hargs⟩, hroom⟩
      · exact hstay (bus_invalidArgs env b ..)
  · obtain ⟨l, hmoves, hcause⟩ := @causes_driverDispatch _ _ True env hid call
    refine ⟨l, hmoves, ?_⟩
    rintro id name flags rfl
    cases hcause with
    | request _ _ hasks => exact absurd hasks hmember

end Broker

/-- What the registry hears of: connections come, call the driver, and go. -/
inductive NameEvent where
  | connect (creds : Creds)
  | call (id : ConnId) (call : DriverCall)
  | disconnect (id : ConnId)

structure NameInput where
  env : Env
  event : NameEvent

def Broker.heard (b : Broker) (x : NameInput) : Broker :=
  match x.event with
  | .connect creds => b.addConn creds
  | .call id call =>
    match b.conn? id with
    | none => b
    | some c => (b.driverDispatch x.env c call).1
  | .disconnect id => b.removeConn x.env id

def nameStep (p : Broker × Nat) (x : NameInput) : Broker × Nat :=
  (p.1.heard x, max p.2 (p.1.heard x).conns.length)

def NoEmptyEntry (p : Broker × Nat) (x : NameInput) : Prop :=
  ∀ id call name, x.event = .call id call → call.asksFor name → p.1.names.find name = none →
    ∀ e ∈ p.1.names.names, e.holders ≠ []

theorem bounded_step {p : Broker × Nat} (h : p.1.bus.Bounded p.2) {x : NameInput} (hx : NoEmptyEntry p x) :
    (nameStep p x).1.bus.Bounded (nameStep p x).2 := by
  obtain ⟨b, peak⟩ := p
  have hmoves : ∃ l, Broker.Moves b (b.heard x) l ∧ b.bus.Within l := by
    obtain ⟨env, event⟩ := x
    cases event with
    | connect creds =>
      rcases b.moves_addConn creds with h | h | ⟨fd, h⟩
      · exact ⟨_, h, trivial⟩
      · exact ⟨_, h, trivial⟩
      · exact ⟨_, h, trivial⟩
    | call id call =>
      simp only [heard]
      cases hc : b.conn? id with
      | none => exact ⟨_, .stay rfl, trivial⟩
      | some c =>
        have hid : c.id ∈ b.bus.ids := by
          rw [KeyedList.key_of_lookup hc]
          exact mem_ids_of_conn? hc
        obtain ⟨l, hl, hwithin⟩ := b.driverDispatch_moves env hid call
        refine ⟨l, hl, ?_⟩
        cases l with
        | request id' name flags =>
          obtain ⟨hasks, hroom⟩ := hwithin id' name flags rfl
          exact ⟨hroom, hx id call name rfl hasks⟩
        | _ => exact trivial
    | disconnect id =>
      simp only [heard]
      cases hc : b.conn? id with
      | none =>
        rw [removeConn_of_none _ _ _ hc]
        exact ⟨_, .stay rfl, trivial⟩
      | some c => exact ⟨_, b.moves_removeConn env (mem_ids_of_conn? hc), trivial⟩
  obtain ⟨l, ⟨hbus, hvalid⟩, hwithin⟩ := hmoves
  have hbounded := Bus.Bounded.apply h hvalid hwithin
  rw [← hbus] at hbounded
  have hfaces : (b.heard x).bus.faces.length = (b.heard x).conns.length := length_map _
  rw [hfaces] at hbounded
  exact hbounded

/-! ## One client -/

theorem policyEval_default_own (c : Conn) (name : Bytes) : policyEval defaultPolicy (ownRequest c name) = true := by
  rfl

def manyNames (n : Nat) : Bytes :=
  cstr "a." ++ List.replicate (n + 1) (ch 'a')

def askName (member : String) (name : Bytes) : DriverCall where
  serial := 1
  sender := none
  member := some (cstr member)
  interface := some driverName
  signature := []
  args := [.str name, .u32 0]

structure Returned (n : Nat) (b : Broker) : Prop where
  policy : b.policy = defaultPolicy
  ids : b.bus.ids = [1]
  names : b.names.names = (List.range n).map fun k => { name := manyNames k, holders := [] }

theorem heard_call (hids : b.bus.ids = [1]) (call : DriverCall) :
    ∃ c, c.id = 1 ∧ c.id ∈ b.bus.ids ∧ b.heard ⟨stubEnv, .call 1 call⟩ = (b.driverDispatch stubEnv c call).1 := by
  have hmem : (1 : ConnId) ∈ b.bus.ids := by simp [hids]
  obtain ⟨c, hc⟩ := exists_conn hmem
  have hid : c.id = 1 := KeyedList.key_of_lookup hc
  refine ⟨c, hid, by simp [hids, hid], ?_⟩
  simp [heard, hc]

theorem manyNames_injective {m : Nat} (h : manyNames m = manyNames n) : m = n := by
  have hlen := congrArg List.length h
  simpa [manyNames] using hlen

theorem Names.request_release (hnew : r.find name = none) (c : ConnId) (flags : ReqFlags) :
    ((r.request c name flags).1.release c name).1.names = r.names ++ [{ name := name, holders := [] }] := by
  have hnot : name ∉ r.names.map NameEnt.name := KeyedList.lookup_eq_none.mp hnew
  have hintern : r.intern name = { r with names := r.names ++ [{ name := name, holders := [] }] } := by
    rw [intern, hnew]
  have hset (r' : Names) (old hs : List Holder) (h : r'.names = r.names ++ [{ name := name, holders := old }]) :
      (r'.setHolders name hs).names = r.names ++ [{ name := name, holders := hs }] ∧
        r'.find name = some { name := name, holders := old } := by
    constructor
    · have hkeep := KeyedList.update_of_not_mem (f := fun e : NameEnt => { e with holders := hs }) hnot
      simp only [KeyedList.update] at hkeep
      simp [setHolders, KeyedList.update, h, hkeep]
    · have hfirst : r.names.find? (fun e => decide (e.name = name)) = none := hnew
      simp [find, KeyedList.lookup, h, hfirst]
  obtain ⟨-, hfind⟩ := hset (r.intern name) [] [] (by rw [hintern])
  have hrequest : (r.request c name flags).1 = (r.intern name).setHolders name [{ connId := c, flags := flags }] := by
    simp [request, hfind, requestHolders]
  have hnames := (hset (r.intern name) [] [{ connId := c, flags := flags }] (by rw [hintern])).1
  rw [← hrequest] at hnames
  obtain ⟨-, hheld⟩ := hset (r.request c name flags).1 [{ connId := c, flags := flags }] [] hnames
  have hrelease : ((r.request c name flags).1.release c name).1 = (r.request c name flags).1.setHolders name [] := by
    simp [release, hheld, holderIndex]
  rw [hrelease]
  exact (hset _ [{ connId := c, flags := flags }] [] hnames).1

def takes (n : Nat) : NameInput :=
  ⟨stubEnv, .call 1 (askName "RequestName" (manyNames n))⟩

def returns (n : Nat) : NameInput :=
  ⟨stubEnv, .call 1 (askName "ReleaseName" (manyNames n))⟩

theorem Returned.find (h : Returned n b) : b.names.find (manyNames n) = none := by
  refine KeyedList.lookup_eq_none.mpr fun hmem => ?_
  rw [h.names, map_map] at hmem
  obtain ⟨k, hk, hkn⟩ := mem_map.mp hmem
  have := manyNames_injective hkn
  exact absurd (mem_range.mp hk) (by omega)

theorem Returned.takes {n : Nat} {b : Broker} (h : Returned n b) :
    (b.heard (takes n)).bus = b.bus.apply (.request 1 (manyNames n) (ReqFlags.ofNat 0)) ∧
      (b.heard (takes n)).policy = defaultPolicy := by
  obtain ⟨c, hc, -, hstep⟩ := heard_call h.ids (askName "RequestName" (manyNames n))
  have hreq : b.heard (SchemaInit.Dbus.takes n) =
      b.requestName stubEnv c (askName "RequestName" (manyNames n)) (manyNames n) 0 := hstep
  have hname : ¬ ((manyNames n).head? = some (ch ':') ∨ manyNames n = driverName) := by
    rintro (hhead | hdriver)
    · exact absurd hhead (by simp [manyNames, cstr, ch])
    · exact absurd (congrArg List.head? hdriver) (by simp [manyNames, cstr, ch, driverName])
  have hroom : ¬ (b.names.holds c.id (manyNames n) = false ∧ b.names.countHeld c.id ≥ maxNamesPerConn) := by
    have hcount : b.names.countHeld c.id = 0 := by
      refine countP_eq_zero.mpr fun e he => ?_
      rw [h.names] at he
      obtain ⟨k, -, rfl⟩ := mem_map.mp he
      simp
    rw [hcount]
    exact fun h => absurd h.2 (by decide)
  rw [hreq]
  constructor
  · unfold requestName
    rw [if_neg hname, h.policy, policyEval_default_own, if_neg (by simp), if_neg hroom]
    rw [bus_reply, bus_broadcastTransitions, hc]
    rfl
  · have haside : Broker.Aside (fun _ => False) b
        (b.requestName stubEnv c (askName "RequestName" (manyNames n)) (manyNames n) 0) :=
      (plain_requestName ..).aside
    rw [haside.policy, h.policy]

theorem heard_returns (hids : b.bus.ids = [1]) (n : Nat) :
    (b.heard (returns n)).bus = b.bus.apply (.release 1 (manyNames n)) ∧ (b.heard (returns n)).policy = b.policy := by
  obtain ⟨c, hc, -, hstep⟩ := heard_call hids (askName "ReleaseName" (manyNames n))
  have hrel : b.heard (returns n) = b.releaseName stubEnv c (askName "ReleaseName" (manyNames n)) (manyNames n) := hstep
  rw [hrel]
  constructor
  · unfold releaseName
    rw [bus_reply, bus_broadcastTransitions, hc]
    rfl
  · have haside : Broker.Aside (fun _ => False) b
        (b.releaseName stubEnv c (askName "ReleaseName" (manyNames n)) (manyNames n)) :=
      (plain_releaseName ..).aside
    exact haside.policy

theorem Returned.cycle (h : Returned n b) :
    ∃ b', [SchemaInit.Dbus.takes n, returns n].foldl nameStep (b, 1) = (b', 1) ∧ Returned (n + 1) b' := by
  obtain ⟨hbus, hpolicy⟩ := h.takes
  have hids : (b.heard (SchemaInit.Dbus.takes n)).bus.ids = [1] := by
    rw [hbus]
    exact h.ids
  obtain ⟨hbus', hpolicy'⟩ := heard_returns hids n
  rw [hbus] at hbus'
  have hids' : ((b.heard (SchemaInit.Dbus.takes n)).heard (returns n)).bus.ids = [1] := by
    rw [hbus']
    exact h.ids
  have hone {u : Broker} {x : NameInput} (hu : (u.heard x).bus.ids = [1]) : nameStep (u, 1) x = (u.heard x, 1) := by
    have hlen := congrArg List.length ((u.heard x).ids_bus.symm.trans hu)
    rw [Broker.ids, length_map, length_singleton] at hlen
    rw [nameStep, hlen, Nat.max_self]
  refine ⟨(b.heard (SchemaInit.Dbus.takes n)).heard (returns n), ?_, hpolicy'.trans hpolicy, hids', ?_⟩
  · rw [foldl_cons, hone hids, foldl_cons, hone hids', foldl_nil]
  · show (bus _).names.names = _
    rw [hbus']
    refine (request_release h.find 1 (ReqFlags.ofNat 0)).trans ?_
    rw [h.names, range_succ, map_append]
    rfl

def aloneFor : Nat → List NameInput
  | 0 => [⟨stubEnv, .connect ⟨0, 0, 1, []⟩⟩]
  | n + 1 => aloneFor n ++ [takes n, returns n]

theorem returned_aloneFor (n : Nat) :
    ∃ b, (aloneFor n).foldl nameStep (start stubConfig, 0) = (b, 1) ∧ Returned n b := by
  induction n with
  | zero =>
    refine ⟨(start stubConfig).addConn ⟨0, 0, 1, []⟩, Prod.ext rfl ?_, ?_, ?_, ?_⟩
    · decide +kernel
    · decide +kernel
    · decide +kernel
    · decide +kernel
  | succ n ih =>
    obtain ⟨b, hrun, hb⟩ := ih
    rw [aloneFor, foldl_append, hrun]
    exact hb.cycle

/-- If no new name is asked for while an entry is empty, there are at most 512 entries for each
connection that was ever open at the same time. -/
theorem registry_bounded {k : Config} {b : Broker} {peak : Nat}
    (h : Run.Reaches nameStep NoEmptyEntry (start k, 0) (b, peak)) :
    b.names.names.length ≤ maxNamesPerConn * peak := by
  have hstart : (start k).bus.Bounded 0 :=
    ⟨live_start k, fun _ => Nat.zero_le _, le_rfl, le_rfl⟩
  exact (h.invariant (fun p : Broker × Nat => p.1.bus.Bounded p.2) hstart fun p x hp hx => bounded_step hp hx).entries

theorem registry_bounded_taken :
    let p := [⟨stubEnv, .connect ⟨0, 0, 1, []⟩⟩, takes 0, takes 1].foldl nameStep (start stubConfig, 0)
    p.1.names.names.length = 2 ∧ p.1.names.names.length ≤ maxNamesPerConn * p.2 := by
  have hheld : ∀ p : Broker × Nat, p.1.names.names.all (fun e => !e.holders.isEmpty) = true → ∀ n,
      NoEmptyEntry p (takes n) := by
    intro p hall n id call name _ _ _ e he
    simpa using all_eq_true.mp hall e he
  have hok : Run.AllOk nameStep NoEmptyEntry (start stubConfig, 0)
      [⟨stubEnv, .connect ⟨0, 0, 1, []⟩⟩, takes 0, takes 1] := by
    refine ⟨?_, hheld _ (by decide +kernel) 0, hheld _ (by decide +kernel) 1, trivial⟩
    rintro id call name ⟨⟩
  refine ⟨by decide +kernel, ?_⟩
  have hrun := hok.reaches
  generalize foldl nameStep (start stubConfig, 0) _ = p at hrun ⊢
  exact registry_bounded hrun

theorem registry_reaches (n : Nat) : ∃ b, Run.Reaches nameStep (fun _ _ => True) (start stubConfig, 0) (b, 1) ∧
    b.names.names.length = n := by
  obtain ⟨b, hrun, hb⟩ := returned_aloneFor n
  refine ⟨b, ?_, by simp [hb.names]⟩
  rw [← hrun]
  exact Run.AllOk.reaches (Run.AllOk.of_forall (fun _ _ _ => trivial) _)

/-- One more than it may hold, for example. -/
theorem registry_grows : ∃ b, Run.Reaches nameStep (fun _ _ => True) (start stubConfig, 0) (b, 1) ∧
      b.names.names.length = maxNamesPerConn * 1 + 1 :=
  registry_reaches _

end SchemaInit.Dbus
