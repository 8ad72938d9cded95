/-
# `SchemaInit.Dbus.Bus` — the bus the broker is there for

What clients can know of a bus: who is connected, which unique name each has,
who owns which name, and the `NameOwnerChanged` signals so far.
`SchemaInit.Dbus.Refine` shows that every step of the broker is a step of this.

A connection stands here with its face: its record without buffers and queues.
-/
import SchemaInit.Dbus.Registry
import SchemaInit.Dbus.Talk

namespace SchemaInit.Dbus

open List KeyedList

/-- The bus without buffers, queues, descriptors and pending calls. -/
structure Bus where
  names : Names
  faces : List Conn
  nextId : ConnId
  log : List OwnerChange

def uniqueText? (r : Names) : Option ConnId → Bytes
  | none => []
  | some id => (r.unique id).getD []

def ownerChange (r : Names) (t : Transition) : OwnerChange where
  name := t.name
  oldOwner := uniqueText? r t.oldOwner
  newOwner := uniqueText? r t.newOwner

def goneChange (u : Bytes) : OwnerChange where
  name := u
  oldOwner := u
  newOwner := []

/-- What can happen to it. -/
inductive Label where
  /-- nothing a client can tell from the registry -/
  | stay
  | accept (c : Conn)
  /-- a connection over its user's cap takes an id all the same -/
  | turnAway
  /-- the handshake gets as far as `k` has it -/
  | shake (id : ConnId) (k : Conn)
  | hello (id : ConnId)
  | setRules (id : ConnId) (rules : MatchSet)
  | request (id : ConnId) (name : Bytes) (flags : ReqFlags)
  | release (id : ConnId) (name : Bytes)
  | monitor (id : ConnId) (rules : MatchSet)
  | leave (id : ConnId)

def Conn.shaken (c k : Conn) : Conn :=
  { c with authed := k.authed, authOk := k.authOk, negotiatedFd := k.negotiatedFd, sawNul := k.sawNul }

namespace Bus

def face? (s : Bus) (id : ConnId) : Option Conn :=
  lookup Conn.id id s.faces

def ids (s : Bus) : List ConnId :=
  s.faces.map Conn.id

def uniqueOf (s : Bus) (id : ConnId) : Option Bytes :=
  (s.face? id).bind Conn.unique

def mod (s : Bus) (id : ConnId) (f : Conn → Conn) : Bus :=
  { s with faces := update Conn.id id f s.faces }

def logged (s : Bus) (ks : List OwnerChange) : Bus :=
  { s with log := s.log ++ ks }

def hello (s : Bus) (id : ConnId) : Bus :=
  match s.uniqueOf id with
  | some _ => s.mod id (fun c => { c with saidHello := true })
  | none =>
    let (names, u) := s.names.allocUnique id
    { s with names := names }.mod id (fun c => { c with unique := some u, saidHello := true })

def dropNames (s : Bus) (id : ConnId) : Bus :=
  let (names, ts) := s.names.disconnect id
  ({ s with names := names }.mod id (fun c => { c with unique := none })).logged
    (ts.map (ownerChange names) ++ ((s.uniqueOf id).map goneChange).toList)

def forget (s : Bus) (id : ConnId) : Bus :=
  { s with faces := without id s.faces }

def apply (s : Bus) : Label → Bus
  | .stay => s
  | .accept c => { s with faces := s.faces ++ [c], nextId := s.nextId + 1 }
  | .turnAway => { s with nextId := s.nextId + 1 }
  | .shake id k => s.mod id (fun c => c.shaken k)
  | .hello id => s.hello id
  | .setRules id rules => s.mod id (fun c => { c with rules := some rules })
  | .request id name flags =>
    let (names, _, ts) := s.names.request id name flags
    { s with names := names }.logged (ts.map (ownerChange names))
  | .release id name =>
    let (names, _, ts) := s.names.release id name
    { s with names := names }.logged (ts.map (ownerChange names))
  | .monitor id rules =>
    (s.dropNames id).mod id (fun c => { c with rules := none, monRules := some rules, isMonitor := true })
  | .leave id => (s.dropNames id).forget id

/-- When a label can happen. -/
def Valid (s : Bus) : Label → Prop
  | .stay | .turnAway => True
  | .accept c => c.id = s.nextId ∧ c.unique = none
  | .shake id _ | .hello id | .setRules id _ | .release id _ | .monitor id _ | .leave id => id ∈ s.ids
  | .request id name _ => id ∈ s.ids ∧ name.head? ≠ some (ch ':')

end Bus

/-! ## Everyone who holds a name is connected -/

structure Bus.Live (s : Bus) : Prop where
  sound : s.names.Sound
  nodup : s.ids.Nodup
  fresh : ∀ id ∈ s.ids, id < s.nextId
  holders : ∀ id, s.names.Holding id → id ∈ s.ids

namespace Bus

theorem ids_mod (s : Bus) (id : ConnId) {f : Conn → Conn} (hf : ∀ c, (f c).id = c.id) : (s.mod id f).ids = s.ids :=
  map_update hf

theorem uniqueOf_mod (s : Bus) (id : ConnId) {f : Conn → Conn} (hf : ∀ c, (f c).id = c.id)
    (hu : ∀ c, (f c).unique = c.unique) (x : ConnId) : (s.mod id f).uniqueOf x = s.uniqueOf x := by
  simp only [Bus.uniqueOf, Bus.face?, Bus.mod, lookup_update hf]
  cases lookup Conn.id x s.faces with
  | none => rfl
  | some c =>
    simp only [Option.map_some, Option.bind_some]
    split
    · exact hu c
    · rfl

theorem Live.congr {s s' : Bus} (h : s.Live) (hnames : s'.names = s.names) (hids : s'.ids = s.ids)
    (hnext : s'.nextId = s.nextId) : s'.Live where
  sound := hnames ▸ h.sound
  nodup := hids ▸ h.nodup
  fresh := by rw [hids, hnext]; exact h.fresh
  holders := by rw [hids, hnames]; exact h.holders

theorem Live.mod {s : Bus} (h : s.Live) (id : ConnId) {f : Conn → Conn} (hf : ∀ c, (f c).id = c.id) :
    (s.mod id f).Live :=
  h.congr rfl (s.ids_mod id hf) rfl

theorem Live.logged {s : Bus} (h : s.Live) (ks : List OwnerChange) : (s.logged ks).Live :=
  h.congr rfl rfl rfl

theorem Live.setNames {s : Bus} (h : s.Live) {r : Names} (hsound : r.Sound)
    (hhold : ∀ id, r.Holding id → id ∈ s.ids) : { s with names := r }.Live where
  sound := hsound
  __ := h
  holders := hhold

theorem Live.hello {s : Bus} (h : s.Live) (id : ConnId) : (s.hello id).Live := by
  unfold Bus.hello
  split
  · exact h.mod id (fun _ => rfl)
  · exact (h.setNames (r := (s.names.allocUnique id).1) { h.sound with } h.holders).mod id (fun _ => rfl)

theorem Live.dropNames {s : Bus} (h : s.Live) (id : ConnId) :
    (s.dropNames id).Live ∧ ¬ (s.dropNames id).names.Holding id := by
  constructor
  · have hnames := h.setNames (h.sound.disconnect id)
      (fun x hx => h.holders x (Names.Holding.of_disconnect h.sound hx).2)
    exact (hnames.mod id (f := fun c => { c with unique := none }) (fun _ => rfl)).logged _
  · exact fun hx => (Names.Holding.of_disconnect h.sound hx).1 rfl

end Bus

namespace Bus

theorem apply_leave {s : Bus} (hd : s.ids.Nodup) (id : ConnId) : s.apply (.leave id) =
      { names := (s.names.disconnect id).1
        faces := without id s.faces
        nextId := s.nextId
        log := s.log ++ ((s.names.disconnect id).2.map (ownerChange (s.names.disconnect id).1) ++
          ((s.uniqueOf id).map goneChange).toList) } := by
  have hgone := swapOut_update hd (k := id) (f := fun c => { c with unique := none }) (fun _ => rfl)
  simp only [apply, dropNames, forget, logged, mod, without, hgone]

theorem apply_leave_mod {s : Bus} (hd : s.ids.Nodup) (id : ConnId) {f : Conn → Conn} (hf : ∀ c, (f c).id = c.id)
    (hu : ∀ c, (f c).unique = c.unique) : (s.mod id f).apply (.leave id) = s.apply (.leave id) := by
  have hd' : (s.mod id f).ids.Nodup := by rwa [s.ids_mod id hf]
  rw [apply_leave hd', apply_leave hd, s.uniqueOf_mod id hf hu]
  simp [mod, without, swapOut_update hd hf]

theorem Live.forget {s : Bus} (h : s.Live) {id : ConnId} (hid : id ∈ s.ids) (hnot : ¬ s.names.Holding id) :
    (s.forget id).Live := by
  have hperm : (id :: (s.forget id).ids).Perm s.ids := swapOut_keys_perm h.nodup hid
  constructor
  · exact h.sound
  · exact (nodup_cons.mp (hperm.nodup_iff.mpr h.nodup)).2
  · intro x hx
    exact h.fresh x (hperm.subset (mem_cons_of_mem _ hx))
  · intro x hx
    rcases mem_cons.mp (hperm.symm.subset (h.holders x hx)) with rfl | hmem
    · exact absurd hx hnot
    · exact hmem

theorem Live.apply {s : Bus} (h : s.Live) {l : Label} (hl : s.Valid l) : (s.apply l).Live := by
  cases l with
  | stay => exact h
  | accept c =>
    obtain ⟨hid, _⟩ := hl
    have hids : (s.apply (.accept c)).ids = s.ids ++ [s.nextId] := by
      simp [Bus.apply, Bus.ids, hid]
    constructor
    · exact h.sound
    · rw [hids, nodup_append]
      refine ⟨h.nodup, by simp, ?_⟩
      intro a ha b hb hab
      have hlt := h.fresh a ha
      rw [hab, mem_singleton.mp hb] at hlt
      exact Nat.lt_irrefl _ hlt
    · intro x hx
      rw [hids] at hx
      rcases mem_append.mp hx with hx | hx
      · exact Nat.lt_succ_of_lt (h.fresh x hx)
      · rw [mem_singleton.mp hx]
        exact Nat.lt_succ_self _
    · intro x hx
      rw [hids]
      exact mem_append_left _ (h.holders x hx)
  | turnAway =>
    exact ⟨h.sound, h.nodup, fun id hid => Nat.lt_succ_of_lt (h.fresh id hid), h.holders⟩
  | shake id k => exact h.mod id (fun _ => rfl)
  | hello id => exact h.hello id
  | setRules id rules => exact h.mod id (fun _ => rfl)
  | request id name flags =>
    obtain ⟨hsound, hhold, _⟩ := Names.request_spec h.sound id name flags
    refine (h.setNames hsound fun x hx => ?_).logged _
    rcases hhold x hx with rfl | hx
    · exact hl.1
    · exact h.holders x hx
  | release id name =>
    obtain ⟨hsound, hhold, _⟩ := Names.release_spec h.sound id name
    exact (h.setNames hsound fun x hx => h.holders x (hhold x hx)).logged _
  | monitor id rules => exact (h.dropNames id).1.mod id (fun _ => rfl)
  | leave id =>
    obtain ⟨hlive, hnot⟩ := h.dropNames id
    have hids : (s.dropNames id).ids = s.ids :=
      { s with names := (s.names.disconnect id).1 }.ids_mod id (fun _ => rfl)
    exact hlive.forget (hids ▸ hl) hnot

end Bus

end SchemaInit.Dbus
