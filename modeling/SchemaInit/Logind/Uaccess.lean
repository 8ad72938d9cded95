/-
# `SchemaInit.Logind.Uaccess` — device access for the active user

`_reconcile_uaccess` gives the active user of a seat an ACL entry on every node that
the udev database tags for the seat, and takes the previous user's entry away.  It works
from what it did before: the last uid, the last list of nodes and their fingerprints.

An entry is kept here with the seat it was granted for, which the kernel does not
know.  After every pass each entry is the one of the seat's active user
(`uaccess_follows_active`), if the nodes that carry an entry are still tagged for the
seat and the seat has an active session.  Neither is certain: a pass over a seat
without an active session does nothing, and a node that left the list is never looked
at again (`grant_left_behind`).
-/
import SchemaInit.Lib.Run
import SchemaInit.Logind.Registry

namespace SchemaInit.Logind

open List KeyedList Function

variable {seat : SeatId} {new uid : Uid} {old : Option Uid} {e : Uid × SeatId} {rest : List SeatId}

open SchemaInit.Dbus (decValue)

abbrev Path := Bytes

/-! ## Nodes and the udev database -/

structure Sig where
  ino : Nat
  mtime : Nat
  deriving DecidableEq

structure Rdev where
  block : Bool
  major : Nat
  minor : Nat
  deriving DecidableEq

/-- A file under `/dev`; `rdev` if it is a device node.  Of the ACL only the entries that
`schema-logind` added, each with the seat it was for. -/
structure Node where
  rdev : Option Rdev
  sig : Sig
  acl : List (Uid × SeatId) := []

abbrev Nodes := List (Path × Node)

structure UdevFile where
  name : Bytes
  body : Option (List Bytes)
  deriving DecidableEq

/-- The database: the directory's `st_mtime_ns` and its files, each if it can be read. -/
structure Udev where
  mtime : Option Nat
  files : Option (List UdevFile)

/-- The pattern of `_UDEV_DB`, whose `\\d` is a digit of ASCII here. -/
def udevDbMatch : Bytes → Option Rdev
  | [] => none
  | kind :: rest =>
    if kind ≠ ch 'c' && kind ≠ ch 'b' then none
    else
      let major := rest.takeWhile isDigit
      match rest.dropWhile isDigit with
      | [] => none
      | colon :: minor =>
        if colon = ch ':' && major ≠ [] && minor ≠ [] && minor.all isDigit then
          some { block := kind = ch 'b', major := decValue major, minor := decValue minor }
        else none

def devJoin (name : Bytes) : Path :=
  if startsWith (cstr "/") name then name else cstr "/dev/" ++ name

def rebaseDevname (devname : Bytes) : Path :=
  if startsWith (cstr "/dev/") devname then devJoin (devname.drop 5)
  else devJoin (devname.dropWhile (· = ch '/'))

def devRdevMap (nodes : Nodes) (rdev : Rdev) : Option Path :=
  (nodes.find? fun n => n.2.rdev = some rdev).map Prod.fst

def udevLine (r : SeatId × Option Path) (line : Bytes) : SeatId × Option Path :=
  if startsWith (cstr "E:ID_SEAT=") line then
    let seat := line.drop 10
    (if seat = [] then cstr "seat0" else seat, r.2)
  else if startsWith (cstr "E:DEVNAME=") line then (r.1, some (rebaseDevname (line.drop 10)))
  else if startsWith (cstr "N:") line then (r.1, some (devJoin (line.drop 2)))
  else r

def uaccessNode (seat : SeatId) (nodes : Nodes) (f : UdevFile) : Option Path :=
  match udevDbMatch f.name, f.body with
  | some rdev, some body =>
    if body.any (fun l => l = cstr "Q:uaccess" || l = cstr "G:uaccess") then
      let r := body.foldl udevLine (cstr "seat0", none)
      if r.1 = seat then
        (r.2.orElse fun _ => devRdevMap nodes rdev).filter fun p => p ≠ [] && nodes.any (fun n => n.1 = p)
      else none
    else none
  | _, _ => none

def uaccessSeatNodes (udev : Udev) (nodes : Nodes) (seat : SeatId) : List Path :=
  (udev.files.getD []).filterMap (uaccessNode seat nodes)

/-! ## The ACLs -/

def setfaclM (seat : SeatId) (uid : Uid) (p : Path) (nodes : Nodes) : Nodes :=
  update Prod.fst p (fun n => (n.1, { n.2 with acl := (uid, seat) :: n.2.acl })) nodes

def setfaclX (uid : Uid) (p : Path) (nodes : Nodes) : Nodes :=
  update Prod.fst p (fun n => (n.1, { n.2 with acl := n.2.acl.filter fun e => e.1 ≠ uid })) nodes

def applyNode (seat : SeatId) (newUid : Uid) (oldUid : Option Uid) (nodes : Nodes) (p : Path) : Nodes :=
  let nodes := setfaclM seat newUid p nodes
  match oldUid with
  | some old => if old ≠ newUid then setfaclX old p nodes else nodes
  | none => nodes

def applyUaccessAcl (seat : SeatId) (paths : List Path) (newUid : Uid) (oldUid : Option Uid) (nodes : Nodes) : Nodes :=
  paths.foldl (applyNode seat newUid oldUid) nodes

/-- `_uaccess_fingerprint`, as items; a path that stands twice in the list is one key. -/
def uaccessFingerprint (nodes : Nodes) (paths : List Path) : List (Path × Sig) :=
  paths.dedup.filterMap fun p => (lookup Prod.fst p nodes).map fun n => (p, n.2.sig)

def sameDict (a b : List (Path × Sig)) : Bool :=
  a.isPerm b

/-! ## The reconciliation -/

/-- `_seat_active_uid`, `_seat_uaccess_fp`, `_seat_uaccess_nodes` and `_seat_udev_mtime`. -/
structure Uaccess where
  activeUid : SeatId → Option Uid := fun _ => none
  fp : SeatId → Option (List (Path × Sig)) := fun _ => none
  nodes : SeatId → Option (List Path) := fun _ => none
  udevMtime : SeatId → Option (Option Nat) := fun _ => none

structure SessionRegistry where
  envVt : Option Int := none
  sessions : List Login1Session := []
  lastVt : Option Int := none
  uaccess : Uaccess := {}
  files : Files := []
  udev : Udev := ⟨none, none⟩
  dev : Nodes := []

variable {nodes nodes' : Nodes} {p : Path} {x : Path × Node} {l m : SessionRegistry}

namespace SessionRegistry

def readNodes (l : SessionRegistry) (seat : SeatId) : Uaccess × List Path :=
  let nodes := uaccessSeatNodes l.udev l.dev seat
  ({ l.uaccess with
      nodes := update l.uaccess.nodes seat (some nodes)
      udevMtime := update l.uaccess.udevMtime seat (some l.udev.mtime) }, nodes)

def refreshNodes (l : SessionRegistry) (seat : SeatId) : Uaccess × List Path :=
  match l.uaccess.nodes seat with
  | some cached => if some l.udev.mtime = l.uaccess.udevMtime seat then (l.uaccess, cached) else l.readNodes seat
  | none => l.readNodes seat

/-- The end of `_reconcile_uaccess`: the ACLs are set and what was done is noted. -/
def regrant (l : SessionRegistry) (u : Uaccess) (seat : SeatId) (activeUid : Uid)
    (fp : List (Path × Sig)) (targets : List Path)
    (revoke : Option Uid) : SessionRegistry :=
  { l with
    uaccess :=
      { u with
        activeUid := update u.activeUid seat (some activeUid)
        fp := update u.fp seat (some fp) }
    dev := applyUaccessAcl seat targets activeUid revoke l.dev }

def changedNodes (prev fp : List (Path × Sig)) : List Path :=
  (fp.filter fun x => prev.lookup x.1 ≠ some x.2).map Prod.fst

def reconcileUaccess (seat : SeatId) (activeUid : Uid) (l : SessionRegistry) : SessionRegistry :=
  let u := (l.refreshNodes seat).1
  let nodes := (l.refreshNodes seat).2
  let fp := uaccessFingerprint l.dev nodes
  let old := u.activeUid seat
  let prev := u.fp seat
  if old = some activeUid then
    if prev.any fun prev => sameDict prev fp then { l with uaccess := u }
    else l.regrant u seat activeUid fp (changedNodes (prev.getD []) fp) none
  else l.regrant u seat activeUid fp nodes old

def deriveSeat (l : SessionRegistry) (seat : SeatId) : SessionRegistry :=
  match activeUidForSeat l.sessions seat with
  | some uid => l.reconcileUaccess seat uid
  | none => l

def writeDerived (l : SessionRegistry) : SessionRegistry :=
  (seats l.sessions).foldl deriveSeat l

end SessionRegistry

/-! ## Runs -/

inductive Event where
  | files (files : Files)
  | udev (udev : Udev)
  | dev (dev : Nodes)
  | sync (handoff : Option Handoff) (activeUid : Uid) (leaderAlive : SessionRecord → Bool)
  | vt (newVt : Int)
  | release (sid : Bytes) (pending : Bool)
  | acked (sid : Bytes)
  | acquire (sid : Bytes)
  | takeControl (sid : Bytes) (vt : Int)

namespace SessionRegistry

def onSession (l : SessionRegistry) (sid : Bytes) (f : Files → Login1Session → Login1Session × Files) :
    SessionRegistry :=
  let r := eachSession (fun files s => if s.sid = sid then f files s else (s, files)) l.sessions l.files
  { l with sessions := r.1, files := r.2 }

def beforeDerived (l : SessionRegistry) : Event → SessionRegistry
  | .files files => { l with files := files }
  | .udev udev => { l with udev := udev }
  | .dev dev => { l with dev := dev }
  | .sync handoff activeUid leaderAlive =>
    let r := syncSessions l.envVt handoff activeUid leaderAlive l.sessions l.files
    { l with sessions := r.1, files := r.2 }
  | .vt newVt =>
    if newVt = 0 then l
    else
      let r := eachSession (Login1Session.onVtChanged newVt) l.sessions l.files
      { l with sessions := r.1, files := r.2, lastVt := some newVt }
  | .release sid pending => l.onSession sid (Login1Session.onVtRelease pending)
  | .acked sid => l.onSession sid fun files s => ({ s with releasing := false }, files)
  | .acquire sid => l.onSession sid Login1Session.onVtAcquire
  | .takeControl sid vt =>
    l.onSession sid fun files s => ({ s with vtnr := s.vtnr.orElse fun _ => if vt = 0 then none else some vt }, files)

def derives (l : SessionRegistry) : Event → Bool
  | .sync _ _ _ => true
  | .vt newVt => newVt ≠ 0 && l.lastVt ≠ some newVt
  | _ => false

def step (l : SessionRegistry) (e : Event) : SessionRegistry :=
  if l.derives e then (l.beforeDerived e).writeDerived else l.beforeDerived e

/-- Nobody else edits the ACLs: a node keeps its entries as long as it exists, and a new one has none. -/
def Untouched (l : SessionRegistry) : Event → Prop
  | .dev dev => ∀ x ∈ dev, x.2.acl = [] ∨ ∃ y ∈ l.dev, y.1 = x.1 ∧ y.2.acl = x.2.acl
  | _ => True

/-- Every node with an entry is still tagged for the seat of the entry, and the seat has an active session. -/
def Settled (l : SessionRegistry) : Prop :=
  ∀ x ∈ l.dev, ∀ e ∈ x.2.acl,
    x.1 ∈ uaccessSeatNodes l.udev l.dev e.2 ∧ (activeUidForSeat l.sessions e.2).isSome = true

def Follows (l : SessionRegistry) : Prop :=
  ∀ x ∈ l.dev, ∀ e ∈ x.2.acl, activeUidForSeat l.sessions e.2 = some e.1

instance (l : SessionRegistry) : Decidable l.Settled :=
  inferInstanceAs (Decidable (∀ x ∈ l.dev, ∀ e ∈ x.2.acl, _ ∧ _))

instance (l : SessionRegistry) : Decidable l.Follows :=
  inferInstanceAs (Decidable (∀ x ∈ l.dev, ∀ e ∈ x.2.acl, _))

structure Fresh (l : SessionRegistry) : Prop where
  uaccess : l.uaccess = {}
  acl : ∀ x ∈ l.dev, x.2.acl = []

end SessionRegistry

/-! ## What `setfacl` changes -/

theorem mem_acl_applyNode (hx : x ∈ applyNode seat new old nodes p) (he : e ∈ x.2.acl) : (e = (new, seat) ∧ x.1 = p) ∨
      ∃ y ∈ nodes, y.1 = x.1 ∧ e ∈ y.2.acl ∧ (x.1 = p → ∀ o, old = some o → o ≠ new → e.1 ≠ o) := by
  have hgrant : ∀ y ∈ setfaclM seat new p nodes, e ∈ y.2.acl →
      (e = (new, seat) ∧ y.1 = p) ∨ ∃ z ∈ nodes, z.1 = y.1 ∧ e ∈ z.2.acl := by
    intro y hy hey
    obtain ⟨z, hz, rfl⟩ := mem_update.mp hy
    split at hey
    next hzp =>
      rw [if_pos hzp]
      rcases mem_cons.mp hey with rfl | hold
      · exact .inl ⟨rfl, hzp⟩
      · exact .inr ⟨z, hz, rfl, hold⟩
    next hzp =>
      rw [if_neg hzp]
      exact .inr ⟨z, hz, rfl, hey⟩
  unfold applyNode at hx
  cases old with
  | none => exact (hgrant x hx he).imp id fun ⟨y, hy, h1, h2⟩ => ⟨y, hy, h1, h2, by simp⟩
  | some o =>
    dsimp only at hx
    split at hx
    next hne =>
      obtain ⟨y, hy, rfl⟩ := mem_update.mp hx
      split at he
      next hyp =>
        rw [if_pos hyp]
        obtain ⟨hmem, hneo⟩ := mem_filter.mp he
        refine (hgrant y hy hmem).imp id fun ⟨z, hz, h1, h2⟩ => ⟨z, hz, h1, h2, ?_⟩
        rintro - o' ho' -
        cases ho'
        simpa using hneo
      next hyp =>
        rw [if_neg hyp]
        exact (hgrant y hy he).imp id fun ⟨z, hz, h1, h2⟩ => ⟨z, hz, h1, h2, fun h => absurd h hyp⟩
    next heq =>
      refine (hgrant x hx he).imp id fun ⟨y, hy, h1, h2⟩ => ⟨y, hy, h1, h2, ?_⟩
      rintro - o' ho' hne
      cases ho'
      exact absurd hne heq

theorem mem_acl_apply {paths : List Path} (hx : x ∈ applyUaccessAcl seat paths new old nodes) (he : e ∈ x.2.acl) :
    (e = (new, seat) ∧ x.1 ∈ paths) ∨
      ∃ y ∈ nodes, y.1 = x.1 ∧ e ∈ y.2.acl ∧ (x.1 ∈ paths → ∀ o, old = some o → o ≠ new → e.1 ≠ o) := by
  induction paths generalizing nodes with
  | nil => exact .inr ⟨x, hx, rfl, he, by simp⟩
  | cons p paths ih =>
    rcases ih hx with ⟨rfl, hin⟩ | ⟨y, hy, hyx, hey, hrest⟩
    · exact .inl ⟨rfl, mem_cons_of_mem _ hin⟩
    · rcases mem_acl_applyNode hy hey with ⟨rfl, hyp⟩ | ⟨z, hz, hzy, hez, hp⟩
      · exact .inl ⟨rfl, by rw [← hyx, hyp]; exact mem_cons_self ..⟩
      · refine .inr ⟨z, hz, hzy.trans hyx, hez, fun hin o ho hne => ?_⟩
        rcases mem_cons.mp hin with hxp | hin
        · exact hp (hyx.trans hxp) o ho hne
        · exact hrest hin o ho hne

def shape (nodes : Nodes) : List (Path × Option Rdev) :=
  nodes.map fun n => (n.1, n.2.rdev)

theorem shape_setfaclM (seat : SeatId) (uid : Uid) (p : Path) (nodes : Nodes) :
    shape (setfaclM seat uid p nodes) = shape nodes :=
  map_update fun _ => rfl

theorem shape_setfaclX (uid : Uid) (p : Path) (nodes : Nodes) : shape (setfaclX uid p nodes) = shape nodes :=
  map_update fun _ => rfl

theorem shape_apply (seat : SeatId) (paths : List Path) (new : Uid) (old : Option Uid) (nodes : Nodes) :
    shape (applyUaccessAcl seat paths new old nodes) = shape nodes := by
  induction paths generalizing nodes with
  | nil => rfl
  | cons p paths ih =>
    refine (ih _).trans ?_
    unfold applyNode
    cases old with
    | none => exact shape_setfaclM seat new p nodes
    | some o =>
      dsimp only
      split
      · exact (shape_setfaclX o p _).trans (shape_setfaclM seat new p nodes)
      · exact shape_setfaclM seat new p nodes

theorem uaccessNode_congr (h : shape nodes = shape nodes') (seat : SeatId) (f : UdevFile) :
    uaccessNode seat nodes f = uaccessNode seat nodes' f := by
  have hany (nodes : Nodes) (p : Path) : (nodes.any fun n => n.1 = p) = (shape nodes).any fun n => n.1 = p := by
    simp [shape, comp_def]
  have hmap (nodes : Nodes) (r : Rdev) :
      devRdevMap nodes r = ((shape nodes).find? fun n => n.2 = some r).map Prod.fst := by
    simp [devRdevMap, shape, comp_def]
  simp only [uaccessNode, hany, hmap, h]

theorem uaccessSeatNodes_congr (h : shape nodes = shape nodes') (udev : Udev) (seat : SeatId) :
    uaccessSeatNodes udev nodes seat = uaccessSeatNodes udev nodes' seat := by
  simp only [uaccessSeatNodes]
  exact filterMap_congr fun f _ => uaccessNode_congr h seat f

/-! ## One reconciliation -/

namespace SessionRegistry

/-- Every entry is for the uid last granted on its seat, on a node of the seat's list. -/
def Kept (l : SessionRegistry) : Prop :=
  ∀ x ∈ l.dev, ∀ e ∈ x.2.acl,
    l.uaccess.activeUid e.2 = some e.1 ∧ ∃ nodes, l.uaccess.nodes e.2 = some nodes ∧ x.1 ∈ nodes

def Tagged (l : SessionRegistry) (seat : SeatId) : Prop :=
  ∀ x ∈ l.dev, ∀ e ∈ x.2.acl, e.2 = seat → x.1 ∈ uaccessSeatNodes l.udev l.dev seat

theorem refreshNodes_spec (l : SessionRegistry) (seat : SeatId) :
    (l.refreshNodes seat).1.activeUid = l.uaccess.activeUid ∧
      (l.refreshNodes seat).1.nodes = update l.uaccess.nodes seat (some (l.refreshNodes seat).2) ∧
        (l.uaccess.nodes seat = some (l.refreshNodes seat).2 ∨
          (l.refreshNodes seat).2 = uaccessSeatNodes l.udev l.dev seat) := by
  unfold refreshNodes
  split
  next cached hcached =>
    split
    · refine ⟨rfl, ?_, .inl hcached⟩
      rw [← hcached, update_eq_self]
    · exact ⟨rfl, rfl, .inr rfl⟩
  · exact ⟨rfl, rfl, .inr rfl⟩

theorem Kept.mem_refreshNodes (h : l.Kept) (htag : l.Tagged seat)
    (hx : x ∈ l.dev) (he : e ∈ x.2.acl) (hseat : e.2 = seat) : x.1 ∈ (l.refreshNodes seat).2 := by
  obtain ⟨-, -, hcached | hread⟩ := l.refreshNodes_spec seat
  · obtain ⟨-, nodes, hnodes, hmem⟩ := h x hx e he
    rw [hseat, hcached] at hnodes
    cases hnodes
    exact hmem
  · rw [hread]
    exact htag x hx e he hseat

theorem mem_of_mem_changedNodes {prev : List (Path × Sig)} {nodes : List Path}
    (h : p ∈ changedNodes prev (uaccessFingerprint l.dev nodes)) : p ∈ nodes := by
  obtain ⟨x, hx, rfl⟩ := mem_map.mp h
  obtain ⟨q, hq, hqx⟩ := mem_filterMap.mp (mem_of_mem_filter hx)
  obtain ⟨n, -, rfl⟩ := Option.map_eq_some_iff.mp hqx
  exact mem_dedup.mp hq

theorem Kept.regrant (h : l.Kept) {fp : List (Path × Sig)} {targets : List Path}
    {revoke : Option Uid} (htargets : ∀ p ∈ targets, p ∈ (l.refreshNodes seat).2)
    (hlisted : ∀ x ∈ l.dev, ∀ e ∈ x.2.acl, e.2 = seat → x.1 ∈ (l.refreshNodes seat).2)
    (hrevoke : l.uaccess.activeUid seat = some uid ∨
      (targets = (l.refreshNodes seat).2 ∧ revoke = l.uaccess.activeUid seat)) :
    (l.regrant (l.refreshNodes seat).1 seat uid fp targets revoke).Kept := by
  obtain ⟨huid, hnodes, -⟩ := l.refreshNodes_spec seat
  intro x hx e he
  simp only [SessionRegistry.regrant, huid, hnodes]
  rcases mem_acl_apply hx he with ⟨rfl, hin⟩ | ⟨y, hy, hyx, hey, hgone⟩
  · rw [update_self, update_self]
    exact ⟨rfl, _, rfl, htargets _ hin⟩
  · obtain ⟨hlast, nodes, hcached, hmem⟩ := h y hy e hey
    by_cases hseat : e.2 = seat
    · have hin : x.1 ∈ (l.refreshNodes seat).2 := hyx ▸ hlisted y hy e hey hseat
      rw [hseat, update_self, update_self]
      refine ⟨?_, _, rfl, hin⟩
      rcases hrevoke with hsame | ⟨hall, hold⟩
      · rw [← hseat, hlast] at hsame
        exact hsame.symm
      · -- an entry of another uid would have been removed
        rw [hseat] at hlast
        by_contra hne
        exact hgone (hall ▸ hin) e.1 (hold.trans hlast) (fun heq => hne (congrArg some heq.symm)) rfl
    · rw [update_of_ne hseat, update_of_ne hseat]
      exact ⟨hlast, nodes, hcached, hyx ▸ hmem⟩

structure Reconciled (seat : SeatId) (uid : Uid) (l l' : SessionRegistry) : Prop where
  sessions : l'.sessions = l.sessions
  udev : l'.udev = l.udev
  shape : shape l'.dev = shape l.dev
  uid : l'.uaccess.activeUid = update l.uaccess.activeUid seat (some uid)
  entries : ∀ x ∈ l'.dev, ∀ e ∈ x.2.acl, e.2 = seat ∨ ∃ y ∈ l.dev, y.1 = x.1 ∧ e ∈ y.2.acl

theorem reconciled_regrant (l : SessionRegistry) (seat : SeatId) (uid : Uid)
    (fp : List (Path × Sig)) (targets : List Path)
    (revoke : Option Uid) : Reconciled seat uid l (l.regrant (l.refreshNodes seat).1 seat uid fp targets revoke) where
  sessions := rfl
  udev := rfl
  shape := shape_apply ..
  uid := by simp [SessionRegistry.regrant, (l.refreshNodes_spec seat).1]
  entries := by
    intro x hx e he
    rcases mem_acl_apply hx he with ⟨rfl, -⟩ | ⟨y, hy, hyx, hey, -⟩
    · exact .inl rfl
    · exact .inr ⟨y, hy, hyx, hey⟩

theorem reconciled_reconcileUaccess (l : SessionRegistry) (seat : SeatId) (uid : Uid) :
    Reconciled seat uid l (l.reconcileUaccess seat uid) := by
  have huid := (l.refreshNodes_spec seat).1
  unfold reconcileUaccess
  dsimp only
  split
  next hsame =>
    split
    · refine ⟨rfl, rfl, rfl, ?_, fun x hx e he => .inr ⟨x, hx, rfl, he⟩⟩
      rw [huid] at hsame ⊢
      rw [← hsame, update_eq_self]
    · exact reconciled_regrant ..
  next => exact reconciled_regrant ..

theorem Kept.reconcileUaccess (h : l.Kept) (htag : l.Tagged seat) : (l.reconcileUaccess seat uid).Kept := by
  obtain ⟨huid, hnodes, -⟩ := l.refreshNodes_spec seat
  have hlisted : ∀ x ∈ l.dev, ∀ e ∈ x.2.acl, e.2 = seat → x.1 ∈ (l.refreshNodes seat).2 :=
    fun x hx e he hseat => h.mem_refreshNodes htag hx he hseat
  unfold SessionRegistry.reconcileUaccess
  dsimp only
  split
  next hsame =>
    rw [huid] at hsame
    split
    · intro x hx e he
      obtain ⟨hlast, nodes, hcached, hmem⟩ := h x hx e he
      simp only [huid, hnodes]
      refine ⟨hlast, ?_⟩
      by_cases hseat : e.2 = seat
      · rw [hseat, update_self]
        exact ⟨_, rfl, hlisted x hx e he hseat⟩
      · rw [update_of_ne hseat]
        exact ⟨nodes, hcached, hmem⟩
    · exact h.regrant (fun p hp => mem_of_mem_changedNodes hp) hlisted (.inl hsame)
  next => exact h.regrant (fun _ hp => hp) hlisted (.inr ⟨rfl, by rw [huid]⟩)

end SessionRegistry

/-! ## A pass over the seats -/

namespace SessionRegistry

structure InPass (m : SessionRegistry) (rest : List SeatId) (l : SessionRegistry) : Prop where
  kept : l.Kept
  sessions : l.sessions = m.sessions
  tagged : ∀ seat ∈ rest, l.Tagged seat
  active : ∀ x ∈ l.dev, ∀ e ∈ x.2.acl, (activeUidForSeat m.sessions e.2).isSome = true
  done : ∀ seat uid, seat ∈ seats m.sessions → seat ∉ rest → activeUidForSeat m.sessions seat = some uid →
    l.uaccess.activeUid seat = some uid

theorem InPass.deriveSeat (hnew : seat ∉ rest) (h : InPass m (seat :: rest) l) : InPass m rest (l.deriveSeat seat) := by
  unfold SessionRegistry.deriveSeat
  rw [h.sessions]
  cases hactive : activeUidForSeat m.sessions seat with
  | none =>
    refine ⟨h.kept, h.sessions, fun s hs => h.tagged s (mem_cons_of_mem _ hs), h.active, ?_⟩
    intro s uid hs hrest huid
    refine h.done s uid hs (fun hmem => ?_) huid
    rcases mem_cons.mp hmem with rfl | hmem
    · rw [hactive] at huid
      cases huid
    · exact hrest hmem
  | some uid =>
    have hrec := l.reconciled_reconcileUaccess seat uid
    refine ⟨h.kept.reconcileUaccess (h.tagged seat (mem_cons_self ..)), hrec.sessions.trans h.sessions, ?_, ?_, ?_⟩
    · intro s hs x hx e he hes
      rcases hrec.entries x hx e he with heq | ⟨y, hy, hyx, hey⟩
      · exact absurd (heq.symm.trans hes ▸ hs) hnew
      · have := h.tagged s (mem_cons_of_mem _ hs) y hy e hey hes
        rw [hrec.udev, uaccessSeatNodes_congr hrec.shape]
        exact hyx ▸ this
    · intro x hx e he
      rcases hrec.entries x hx e he with heq | ⟨y, hy, -, hey⟩
      · rw [heq, hactive]
        rfl
      · exact h.active y hy e hey
    · intro s u hs hrest hu
      rw [hrec.uid]
      by_cases hseat : s = seat
      · subst hseat
        rw [update_self, ← hactive, hu]
      · rw [update_of_ne hseat]
        exact h.done s u hs (fun hmem => (mem_cons.mp hmem).elim hseat hrest) hu

theorem InPass.foldl (hd : rest.Nodup) (h : InPass m rest l) :
    InPass m [] (rest.foldl SessionRegistry.deriveSeat l) := by
  induction rest generalizing l with
  | nil => exact h
  | cons seat rest ih =>
    obtain ⟨hnew, hd⟩ := nodup_cons.mp hd
    exact ih hd (h.deriveSeat hnew)

theorem writeDerived_spec (h : m.Kept) (hsettled : m.Settled) : m.writeDerived.Kept ∧ m.writeDerived.Follows := by
  have hpass : InPass m [] m.writeDerived := by
    refine InPass.foldl (seats_nodup _) ⟨h, rfl, ?_, fun x hx e he => (hsettled x hx e he).2, ?_⟩
    · rintro seat - x hx e he rfl
      exact (hsettled x hx e he).1
    · exact fun seat uid hs hrest => absurd hs hrest
  refine ⟨hpass.kept, fun x hx e he => ?_⟩
  obtain ⟨uid, huid⟩ := Option.isSome_iff_exists.mp (hpass.active x hx e he)
  have hnoted := hpass.done e.2 uid (mem_seats_of_active huid) (not_mem_nil) huid
  rw [(hpass.kept x hx e he).1] at hnoted
  cases hnoted
  rw [hpass.sessions]
  exact huid

/-! ## Every run -/

theorem Fresh.kept (h : l.Fresh) : l.Kept := by
  intro x hx e he
  rw [h.acl x hx] at he
  cases he

theorem uaccess_beforeDerived (l : SessionRegistry) (e : Event) : (l.beforeDerived e).uaccess = l.uaccess := by
  cases e with
  | vt newVt =>
    unfold beforeDerived
    dsimp only
    split
    · rfl
    · rfl
  | _ => rfl

theorem acl_beforeDerived {e : Event} (hown : l.Untouched e)
    (hx : x ∈ (l.beforeDerived e).dev) : x.2.acl = [] ∨ ∃ y ∈ l.dev, y.1 = x.1 ∧ y.2.acl = x.2.acl := by
  cases e with
  | dev dev => exact hown x hx
  | vt newVt =>
    unfold beforeDerived at hx
    dsimp only at hx
    split at hx
    · exact .inr ⟨x, hx, rfl, rfl⟩
    · exact .inr ⟨x, hx, rfl, rfl⟩
  | _ => exact .inr ⟨x, hx, rfl, rfl⟩

theorem Kept.beforeDerived (h : l.Kept) {e : Event} (hown : l.Untouched e) : (l.beforeDerived e).Kept := by
  intro x hx e he
  rw [uaccess_beforeDerived]
  rcases acl_beforeDerived hown hx with hnone | ⟨y, hy, hyx, hacl⟩
  · rw [hnone] at he
    cases he
  · obtain ⟨hlast, nodes, hnodes, hmem⟩ := h y hy e (hacl ▸ he)
    exact ⟨hlast, nodes, hnodes, hyx ▸ hmem⟩

def Meets (l : SessionRegistry) (e : Event) : Prop :=
  l.derives e = true → (l.beforeDerived e).Settled

theorem Kept.step (h : l.Kept) {e : Event} (hown : l.Untouched e) (hmeets : l.Meets e) : (l.step e).Kept := by
  have hbefore := h.beforeDerived hown
  unfold SessionRegistry.step
  split
  next hderives => exact (writeDerived_spec hbefore (hmeets hderives)).1
  next => exact hbefore

end SessionRegistry

/-- After every pass over the seats, each entry that was granted for a seat is for the user of the seat's
active session, if in every pass the nodes with an entry are still tagged for the seat of the entry
and that seat has an active session. -/
theorem uaccess_follows_active {start l : SessionRegistry} (hstart : start.Fresh)
    (hrun : Run.Reaches SessionRegistry.step (fun l e => l.Untouched e ∧ l.Meets e) start l) {e : Event}
    (hown : l.Untouched e) (hmeets : l.Meets e) (hderives : l.derives e = true) : (l.step e).Follows := by
  have hkept : l.Kept := hrun.invariant SessionRegistry.Kept hstart.kept fun u e hu he => hu.step he.1 he.2
  rw [SessionRegistry.step, if_pos hderives]
  exact (SessionRegistry.writeDerived_spec (hkept.beforeDerived hown) (hmeets hderives)).2

def twoLogins : SessionRegistry where
  files := [(cstr "1", [(cstr "UID", cstr "1000"), (cstr "VTNR", cstr "1"), (cstr "ACTIVE", cstr "1")]),
    (cstr "2", [(cstr "UID", cstr "1001"), (cstr "VTNR", cstr "2")])]
  udev := ⟨some 1, some [⟨cstr "c116:3", some [cstr "Q:uaccess"]⟩]⟩
  dev := [(cstr "/dev/snd", { rdev := some ⟨false, 116, 3⟩, sig := ⟨1, 1⟩ })]

theorem twoLogins_fresh : twoLogins.Fresh where
  uaccess := rfl
  acl := by decide

def syncAll : Event :=
  .sync none 1000 fun _ => true

theorem uaccess_follows_active_switch : ((twoLogins.step syncAll).step (.vt 2)).Follows ∧
      (((twoLogins.step syncAll).step (.vt 2)).dev.map fun n => n.2.acl) = [[(1001, cstr "seat0")]] :=
  ⟨uaccess_follows_active twoLogins_fresh
      (.tail (e := syncAll) (.refl _) ⟨trivial, fun _ => by decide +kernel⟩) trivial
        (fun _ => by decide +kernel) (by decide +kernel),
    by decide +kernel⟩

/-- User 1000 keeps the device after a switch to a VT without a session, and after the device lost its tag
and user 1001 became active. -/
theorem grant_left_behind :
    (∃ l, Run.Reaches SessionRegistry.step SessionRegistry.Untouched twoLogins l ∧ l.derives (.vt 3) = true ∧
      ¬ (l.step (.vt 3)).Follows ∧ activeUidForSeat (l.step (.vt 3)).sessions (cstr "seat0") = none) ∧
    ∃ l, Run.Reaches SessionRegistry.step SessionRegistry.Untouched twoLogins l ∧ l.derives (.vt 2) = true ∧
      ¬ (l.step (.vt 2)).Follows ∧ activeUidForSeat (l.step (.vt 2)).sessions (cstr "seat0") = some 1001 := by
  have hsync : Run.Reaches SessionRegistry.step SessionRegistry.Untouched twoLogins (twoLogins.step syncAll) :=
    .tail (.refl _) trivial
  have huntag : (twoLogins.step syncAll).Untouched (.udev ⟨some 2, some []⟩) := trivial
  refine ⟨⟨_, hsync, ?_⟩, ⟨_, hsync.tail huntag, ?_⟩⟩
  · decide +kernel
  · decide +kernel

end SchemaInit.Logind
