/-
# `SchemaInit.Logind.Registry` — the sessions of `schema-logind`

A session file is the `dict` of its keys, in the order of the file.  The registry has
one object per session; `sync` makes the objects agree with the directory, and a VT
switch moves the active flag, which is written back into the file of the session.

What a record needs from outside the file (`get_active_uid` for a file without `UID`,
whether the leader lives) is part of the event.  Taken devices, the VT's mediation and
the D-Bus signals do not touch any of this and are left out.
-/
import SchemaInit.Dbus.FeltPolicy

namespace SchemaInit.Logind

open SchemaInit.Dbus.Felt (int dictSet)

abbrev Uid := Int

abbrev SeatId := Bytes

abbrev Data := List (Bytes × Bytes)

/-! ## Records -/

structure SessionRecord where
  sid : Bytes
  data : Data
  synthesised : Bool := false
  activeUid : Uid := 1000
  deriving DecidableEq

def intOr (val : Option Bytes) (default : Int) : Int :=
  (val.bind int).getD default

namespace SessionRecord

def value (r : SessionRecord) (key : String) : Option Bytes :=
  (r.data.lookup (cstr key)).filter (· ≠ [])

def uid (r : SessionRecord) : Uid :=
  match r.value "UID" with
  | some v => intOr (some v) 0
  | none => r.activeUid

def seat (r : SessionRecord) : SeatId :=
  (r.value "SEAT").getD (cstr "seat0")

def vtnr (r : SessionRecord) : Int :=
  intOr (r.data.lookup (cstr "VTNR")) 0

def state (r : SessionRecord) : Bytes :=
  (r.value "STATE").getD (if r.synthesised then cstr "active" else cstr "online")

def active (r : SessionRecord) : Bool :=
  match r.data.lookup (cstr "ACTIVE") with
  | some v => v = cstr "1"
  | none => r.state = cstr "active"

def sameSignature (a b : Data) : Bool :=
  a.isPerm b

end SessionRecord

abbrev Files := List (Bytes × Data)

/-- `str.isalnum` on file names in ASCII -/
def isAlnum (b : UInt8) : Bool :=
  (ch '0' ≤ b && b ≤ ch '9') || (ch 'A' ≤ b && b ≤ ch 'Z') || (ch 'a' ≤ b && b ≤ ch 'z')

def legacySessionId : Bytes := cstr "31"

/-- `scan_session_files`: every described session, or the placeholder if there is none. -/
def scanSessionFiles (files : Files) (activeUid : Uid) : List SessionRecord :=
  let records := files.filterMap fun f =>
    if f.1 ≠ [] && f.1.all isAlnum && f.2 ≠ [] then some { sid := f.1, data := f.2, activeUid := activeUid } else none
  if records = [] then [{ sid := legacySessionId, data := [], synthesised := true, activeUid := activeUid }]
  else records

/-! ## Session objects -/

structure Handoff where
  sid : Bytes := legacySessionId
  vtnr : Int := 0
  active : Bool := true

/-- `Login1Session` with its entry of `_sigs`; `releasing` is a pending release timer. -/
structure Login1Session where
  record : SessionRecord
  sig : Data
  vtnr : Option Int
  active : Bool
  releasing : Bool := false

namespace Login1Session

def sid (s : Login1Session) : Bytes :=
  s.record.sid

def new (envVt : Option Int) (handoff : Option Handoff) (r : SessionRecord) : Login1Session :=
  let vtnr := match envVt with
    | some v => some v
    | none => if r.vtnr = 0 then none else some r.vtnr
  match handoff.filter (fun h => h.sid = r.sid) with
  | none => { record := r, sig := r.data, vtnr := vtnr, active := r.active }
  | some h =>
    -- `_adopt_handoff`
    { record := r, sig := r.data, vtnr := if h.vtnr = 0 then vtnr else some h.vtnr, active := h.active }

/-- `_write_back_active`: the file and the record, which becomes what the file says. -/
def writeBackActive (active : Bool) (files : Files) (s : Login1Session) : Login1Session × Files :=
  if s.record.synthesised then (s, files)
  else
    match files.lookup s.sid with
    | none => (s, files)
    | some data =>
      if data = [] then (s, files)
      else
        let data := dictSet data (cstr "ACTIVE") (if active then cstr "1" else cstr "0")
        let data := dictSet data (cstr "STATE") (if active then cstr "active" else cstr "online")
        ({ s with record.data := data },
          files.map fun f => if f.1 = s.sid then (f.1, data) else f)

def setActive (active : Bool) (files : Files) (s : Login1Session) : Login1Session × Files :=
  if s.active = active then (s, files) else writeBackActive active files { s with active := active }

def onVtChanged (newVt : Int) (files : Files) (s : Login1Session) : Login1Session × Files :=
  let vtnr := s.vtnr.getD s.record.vtnr
  if vtnr = 0 || newVt = 0 then (s, files) else setActive (newVt = vtnr) files s

/-- `_on_vt_release`; `pending` says whether devices have to be acknowledged. -/
def onVtRelease (pending : Bool) (files : Files) (s : Login1Session) : Login1Session × Files :=
  if s.releasing || !s.active then (s, files)
  else
    let r := setActive false files s
    ({ r.1 with releasing := pending }, r.2)

def onVtAcquire (files : Files) (s : Login1Session) : Login1Session × Files :=
  setActive true files { s with releasing := false }

end Login1Session

/-! ## The registry -/

def eachSession (f : Files → Login1Session → Login1Session × Files) :
    List Login1Session → Files → List Login1Session × Files
  | [], files => ([], files)
  | s :: rest, files =>
    let r := f files s
    let more := eachSession f rest r.2
    (r.1 :: more.1, more.2)

def syncRecord (envVt : Option Int) (handoff : Option Handoff) (sessions : List Login1Session) (r : SessionRecord) :
    List Login1Session :=
  if sessions.any (fun s => s.sid = r.sid) then
    sessions.map fun s =>
      if s.sid = r.sid && !SessionRecord.sameSignature r.data s.sig then { s with record := r, sig := r.data } else s
  else sessions ++ [.new envVt handoff r]

/-- `sync` before `_write_derived`: dead leaders' sessions are reaped, then the objects follow the records. -/
def syncSessions (envVt : Option Int) (handoff : Option Handoff) (activeUid : Uid) (leaderAlive : SessionRecord → Bool)
    (sessions : List Login1Session) (files : Files) : List Login1Session × Files :=
  let records := scanSessionFiles files activeUid
  let live := records.filter leaderAlive
  let files := files.filter fun f => !(records.any fun r => r.sid = f.1 && !leaderAlive r)
  let kept := sessions.filter fun s => live.any fun r => r.sid = s.sid
  (live.foldl (syncRecord envVt handoff) kept, files)

local instance : LawfulBEq SeatId := inferInstance

def addSeat (seen : List SeatId) (s : Login1Session) : List SeatId :=
  if s.record.seat ∈ seen then seen else seen ++ [s.record.seat]

def seats (sessions : List Login1Session) : List SeatId :=
  let seen := sessions.foldl addSeat []
  if seen = [] then [cstr "seat0"] else seen

def activeSessionForSeat (sessions : List Login1Session) (seat : SeatId) : Option Login1Session :=
  sessions.find? fun s => s.record.seat = seat && s.active

def activeUidForSeat (sessions : List Login1Session) (seat : SeatId) : Option Uid :=
  (activeSessionForSeat sessions seat).map fun s => s.record.uid

theorem mem_addSeat {seen : List SeatId} {s : Login1Session} {seat : SeatId} :
    seat ∈ addSeat seen s ↔ seat ∈ seen ∨ seat = s.record.seat := by
  unfold addSeat
  split
  next hin => exact ⟨.inl, fun h => h.elim id (· ▸ hin)⟩
  next => simp

theorem seats_nodup (sessions : List Login1Session) : (seats sessions).Nodup := by
  have hfold : ∀ (l : List Login1Session) (seen : List SeatId), seen.Nodup → (l.foldl addSeat seen).Nodup := by
    intro l
    induction l with
    | nil => exact fun _ h => h
    | cons s l ih =>
      intro seen h
      refine ih _ ?_
      unfold addSeat
      split
      · exact h
      next hnew => exact h.append (List.nodup_singleton _) (List.disjoint_singleton.mpr hnew)
  unfold seats
  dsimp only
  split
  · exact List.nodup_singleton _
  · exact hfold sessions [] List.nodup_nil

theorem mem_seats_of_mem {sessions : List Login1Session} {s : Login1Session} (h : s ∈ sessions) :
    s.record.seat ∈ seats sessions := by
  have hfold : ∀ (l : List Login1Session) (seen : List SeatId), (s ∈ l ∨ s.record.seat ∈ seen) →
      s.record.seat ∈ l.foldl addSeat seen := by
    intro l
    induction l with
    | nil => exact fun seen hs => hs.resolve_left (List.not_mem_nil)
    | cons t l ih =>
      intro seen hs
      refine ih _ ?_
      rcases hs with hs | hs
      · rcases List.mem_cons.mp hs with rfl | hs
        · exact .inr (mem_addSeat.mpr (.inr rfl))
        · exact .inl hs
      · exact .inr (mem_addSeat.mpr (.inl hs))
  have hseen := hfold sessions [] (.inl h)
  unfold seats
  dsimp only
  split
  next hnil => rw [hnil] at hseen; cases hseen
  next => exact hseen

theorem mem_seats_of_active {sessions : List Login1Session} {seat : SeatId} {uid : Uid}
    (h : activeUidForSeat sessions seat = some uid) : seat ∈ seats sessions := by
  obtain ⟨s, hs, -⟩ := Option.map_eq_some_iff.mp h
  have hseat : s.record.seat = seat := by
    have := List.find?_some hs
    simp only [Bool.and_eq_true, decide_eq_true_eq] at this
    exact this.1
  exact hseat ▸ mem_seats_of_mem (List.mem_of_find?_eq_some hs)

end SchemaInit.Logind
