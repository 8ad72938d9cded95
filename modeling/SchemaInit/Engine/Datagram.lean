/-
# `SchemaInit.Engine.Datagram` — the notify socket from the outside

Anyone may write to the notify socket.  `notify_recv` takes the sender's pid and uid
from the kernel, `notify_parse` reads the keys of the message, and `notify_poll` lets
it count for a service whose main process the sender is, or whose cgroup holds it
according to `/proc/<pid>/cgroup`; a `BUSNAME=` message counts if root sends it from
the broker's executable, and then for the reported owner of the name.

`notify_read_cgroup` has room for 4095 bytes.  A text that is cut inside the last
component of its unified path reads like the path of another cgroup, and that is the
only way in which a message counts for a service it does not belong to
(`notify_attributes_iff`).
-/
import SchemaInit.Engine.Moves

namespace SchemaInit.Engine

open Pid1 Service List

/-! ## `notify_parse` -/

def notifyStatusMax : Nat := 128
def notifyCgroupTextMax : Nat := 4096
def notifyMaxFds : Nat := 253

def digitsValue (digits : Bytes) : Nat :=
  digits.foldl (fun v c => v * 10 + (c.toNat - (ch '0').toNat)) 0

def atoi (s : Bytes) : Int :=
  let s := s.dropWhile fun c => c = ch ' ' || (9 ≤ c && c ≤ 13)
  let value (digits : Bytes) : Nat := digitsValue (digits.takeWhile isDigit)
  match s with
  | [] => 0
  | c :: rest =>
    if c = ch '-' then asInt32 ((2 ^ 32 - value rest % 2 ^ 32) % 2 ^ 32)
    else asInt32 (value (if c = ch '+' then rest else s) % 2 ^ 32)

def valueOf (key line : Bytes) : Option Bytes :=
  if startsWith key line && line.length > key.length then some (line.drop key.length) else none

/-- One line of `notify_parse`; the first part says whether anything was there to act on. -/
def notifyParseLine (r : Bool × Msg) (line : Bytes) : Bool × Msg :=
  let m := r.2
  if line = cstr "READY=1" then (true, { m with ready := true })
  else if line = cstr "RELOADING=1" then (true, m)
  else if line = cstr "STOPPING=1" then (true, m)
  else if line = cstr "WATCHDOG=1" then (true, { m with watchdog := true })
  else if line = cstr "FDSTORE=1" then (true, { m with fdstore := true })
  else if line = cstr "FDSTOREREMOVE=1" then (true, { m with fdstoreRemove := true })
  else
    match valueOf (cstr "FDNAME=") line with
    | some v => (r.1, { m with fdname := if v.length ≥ 64 then cstr ":" else cstrAt v 0 })
    | none =>
      match (valueOf (cstr "BUSNAME=") line).filter fun v => v.length < 256 with
      | some v => (true, { m with busname := cstrAt v 0 })
      | none =>
        match (valueOf (cstr "BUSOWNERPID=") line).filter fun v => v.length < 12 with
        | some v => (true, { m with busOwnerPid := (atoi (cstrAt v 0)).toNat })
        | none =>
          match (valueOf (cstr "MAINPID=") line).filter fun v => v.length < 11 with
          | some v =>
            if v.all isDigit && digitsValue v > 0 && digitsValue v < 2 ^ 31 then
              (true, { m with mainpid := digitsValue v })
            else r
          | none =>
            match valueOf (cstr "STATUS=") line with
            | some v =>
              let s := cstrAt (v.take (notifyStatusMax - 1)) 0
              (true, { m with status := s.map fun c => if c < 0x20 then ch ' ' else c })
            | none => r

def notifyParse (buf : Bytes) : Bool × Msg :=
  (buf.splitOn (ch '\n')).foldl notifyParseLine (false, { pid := 0 })

/-! ## `/proc` -/

def notifyCgroupTextMatches (text cgPath : Bytes) : Bool :=
  if !startsWith (cstr "/sys/fs/cgroup") cgPath then false
  else
    let want := cgPath.drop 14
    if want.isEmpty then false
    else
      match strstr (cstr "0::") text with
      | none => false
      | some (before, line) =>
        if !before.isEmpty && before.getLast? ≠ some (ch '\n') then false
        else
          let path := upTo [ch '\n'] (line.drop 3)
          startsWith want path && (path.length = want.length || (path.drop want.length).head? = some (ch '/'))

def notifyReadCgroup (file : Bytes) : Bytes :=
  cstrAt (file.take (notifyCgroupTextMax - 1)) 0

/-- `/proc/<pid>/cgroup` can be read and places the process in the cgroup. -/
def cgroupHolds (file cgPath : Bytes) : Bool :=
  !file.isEmpty && notifyCgroupTextMatches (notifyReadCgroup file) cgPath

def notifyBrokerExeOk (exe : Bytes) : Bool :=
  let del := cstr " (deleted)"
  let exe := if exe.length > del.length && exe.drop (exe.length - del.length) = del
    then exe.take (exe.length - del.length) else exe
  exe = cstr "/usr/bin/schema-dbus" || exe = cstr "/usr/local/bin/schema-dbus"

/-- What `/proc` says, besides what the engine asks otherwise; an empty text is a file that is
not there. -/
structure NotifyEnv where
  w : World := {}
  cgroupText : Nat → Bytes
  exe : Nat → Bytes := fun _ => []

/-- The answers of the outside, with the cgroup test as the code makes it. -/
def NotifyEnv.world (env : NotifyEnv) : World :=
  { env.w with inCgroup := fun pid cgPath => cgroupHolds (env.cgroupText pid) cgPath }

def NotifyEnv.exeText (env : NotifyEnv) (pid : Nat) : Bytes :=
  cstrAt ((env.exe pid).take 255) 0

def NotifyEnv.senderIsBroker (env : NotifyEnv) (pid uid : Nat) : Bool :=
  uid = 0 && !(env.exe pid).isEmpty && notifyBrokerExeOk (env.exeText pid)

/-! ## A datagram -/

/-- What `recvmsg` returns: `pid` and `uid` of the sender if they came along. -/
structure Datagram where
  data : Bytes
  creds : Option (Nat × Nat)
  fds : List Int := []
  truncated : Bool := false

/-- The message of a datagram, with the descriptors that are kept for it; `none` for one to
discard. -/
def Datagram.msg (env : NotifyEnv) (d : Datagram) : Option (Bool × Msg) :=
  match d.creds with
  | none => none
  | some (pid, uid) =>
    if d.truncated || pid = 0 || d.data.isEmpty then none
    else
      let r := notifyParse d.data
      some (r.1, { r.2 with pid := pid, broker := env.senderIsBroker pid uid, fds := d.fds.take notifyMaxFds })

def fdstoreAddAll (w : World) (svc name : Bytes) (max : Int) : List Int → List FdEnt → List FdEnt × List Int
  | [], store => (store, [])
  | fd :: fds, store =>
    let store' := fdstoreAdd w svc name max store fd
    let r := fdstoreAddAll w svc name max fds store'
    if store'.length = store.length then (r.1, fd :: r.2) else r

def fdstoreTaken (svc name : Bytes) (store : List FdEnt) : List Int :=
  (store.filter fun x => x.svc = svc && x.name = name).map FdEnt.fd

def notifyCloses (w : World) (m : Msg) (e : Pid1) : List Int :=
  if !m.busname.isEmpty then m.fds
  else
    match e.services.findIdx? (Service.hears w m) with
    | none => m.fds
    | some i =>
      let s := e.at_ i
      if !s.stores m then m.fds
      else
        let r := if m.fdstore then fdstoreAddAll w s.conf.name m.fdname s.conf.fdstoreMax m.fds e.fdstore
          else (e.fdstore, m.fds)
        (if m.fdstoreRemove then fdstoreTaken s.conf.name m.fdname r.1 else []) ++ r.2

def notifyDatagram (env : NotifyEnv) (d : Datagram) (e : Pid1) : Pid1 × List Int :=
  match d.msg env with
  | none => (e, d.fds)
  | some (acted, m) =>
    let beyond := d.fds.drop notifyMaxFds
    if !acted then (e, beyond ++ m.fds)
    else (e.notifyPoll env.world m, beyond ++ notifyCloses env.world m e)

/-! ## What a message changes -/

namespace Pid1

theorem fdstore_apply (w : World) (e : Pid1) (o : Op) : (e.apply w o).fdstore = e.fdstore := by
  cases o with
  | signal | signalGroup | close => rfl
  | killTree cg =>
    simp only [apply, killTreeAt]
    split
    · rfl
    · split
      · simp only [evictionAddAs, evictionForget, cgroupRmdirTree, emit]
        split <;> split <;> rfl
      · simp only [cgroupRmdirTree, emit]
        split <;> rfl
  | assign cg =>
    simp only [apply, cgroupMkdir, cgroupRmdirTree]
    split <;> split <;> rfl

theorem fdstore_on (w : World) (i : Nat) (f : Loc → Loc) (e : Pid1) : (e.on w i f).fdstore = e.fdstore := by
  have hops : ∀ (l : List Op) (e : Pid1), (l.foldl (apply w) e).fdstore = e.fdstore := by
    intro l
    induction l with
    | nil => intro e; rfl
    | cons o l ih => intro e; exact (ih _).trans (fdstore_apply w e o)
  exact hops _ e

inductive Polled (w : World) (m : Msg) (e : Pid1) : Pid1 → Prop where
  | nothing : Polled w m e e
  | bus {e' : Pid1} (hname : m.busname ≠ []) (howner : m.busOwnerPid ≠ 0) (hbroker : m.broker = true)
      (hsvcs : ∀ j, e'.at_ j = e.at_ j ∨ (e.at_ j).ownsBus w m = true)
        (hstore : e'.fdstore = e.fdstore) : Polled w m e e'
  | heard {e' : Pid1} {i : Nat} (hname : m.busname = []) (hi : e.services.findIdx? (Service.hears w m) = some i)
      (hothers : ∀ j, i ≠ j → e'.at_ j = e.at_ j) (hstore : e'.fdstore = (hearStores w i m e).fdstore) : Polled w m e e'

theorem notifyPoll_cases (w : World) (m : Msg) (e : Pid1) : Polled w m e (e.notifyPoll w m) := by
  unfold notifyPoll
  split
  next hname =>
    have hname : m.busname ≠ [] := by simpa using hname
    split
    · exact .nothing
    next hbroker =>
      simp only [Bool.or_eq_true, decide_eq_true_eq, Bool.not_eq_true', not_or, Bool.not_eq_false] at hbroker
      refine .bus hname hbroker.1 hbroker.2 (fun j => ?_) rfl
      simp only [at_, getD_eq_getElem?_getD, getElem?_map]
      cases e.services[j]? with
      | none => exact .inl rfl
      | some s =>
        simp only [Option.map_some, Option.getD_some]
        split
        next howns => exact .inr howns
        next => exact .inl rfl
  next hname =>
    have hname : m.busname = [] := by simpa using hname
    split
    · exact .nothing
    next i hi =>
      have hstores : (hearStores w i m e).services = e.services := by
        unfold hearStores
        dsimp only
        split <;> rfl
      have hat (j : Nat) : (hearStores w i m e).at_ j = e.at_ j := by rw [at_, hstores, at_]
      dsimp only
      split
      · exact .heard hname hi (fun j hj => (at_on_ne hj w _ _).trans (hat j)) (fdstore_on w i _ _)
      · exact .heard hname hi (fun j _ => hat j) rfl

end Pid1

/-! ## Descriptors -/

section
variable {w : World} {svc name : Bytes} {max : Int}

theorem fdstoreAdd_cases (store : List FdEnt) (fd : Int) : fdstoreAdd w svc name max store fd = store ∨
      ∃ x, fdstoreAdd w svc name max store fd = store ++ [x] ∧ x.svc = svc ∧ x.fd = fd := by
  unfold fdstoreAdd
  dsimp only
  generalize (if name.isEmpty then cstr "stored" else name) = stored
  split
  · exact .inl rfl
  · exact .inr ⟨_, rfl, rfl, rfl⟩

theorem fdstoreAddAll_fst (fds : List Int) (store : List FdEnt) :
    (fdstoreAddAll w svc name max fds store).1 = fds.foldl (fdstoreAdd w svc name max) store := by
  induction fds generalizing store with
  | nil => rfl
  | cons fd fds ih =>
    simp only [fdstoreAddAll, foldl_cons]
    split
    · exact ih _
    · exact ih _

theorem fdstoreAddAll_perm (fds : List Int) (store : List FdEnt) :
    ((fdstoreAddAll w svc name max fds store).1.map FdEnt.fd ++ (fdstoreAddAll w svc name max fds store).2).Perm
      (store.map FdEnt.fd ++ fds) := by
  induction fds generalizing store with
  | nil => simp [fdstoreAddAll]
  | cons fd fds ih =>
    have hrest := ih (fdstoreAdd w svc name max store fd)
    simp only [fdstoreAddAll]
    rcases fdstoreAdd_cases store fd with hsame | ⟨x, hadd, -, hfd⟩
    · rw [hsame] at hrest ⊢
      rw [if_pos rfl]
      exact (perm_middle.trans (hrest.cons fd)).trans perm_middle.symm
    · rw [hadd] at hrest ⊢
      rw [if_neg (by simp)]
      refine hrest.trans (List.Perm.of_eq ?_)
      simp [hfd]

theorem fdstoreAdd_other {other : Bytes} (h : other ≠ svc) (fds : List Int) (store : List FdEnt) :
    (fds.foldl (fdstoreAdd w svc name max) store).filter (fun x => x.svc = other) =
      store.filter fun x => x.svc = other := by
  induction fds generalizing store with
  | nil => rfl
  | cons fd fds ih =>
    rw [foldl_cons, ih]
    rcases fdstoreAdd_cases store fd with hsame | ⟨x, hadd, hsvc, -⟩
    · rw [hsame]
    · rw [hadd, filter_append]
      simp [hsvc, Ne.symm h]

theorem fdstoreRemove_other {other : Bytes} (h : other ≠ svc) (store : List FdEnt) :
    (fdstoreRemove svc name store).filter (fun x => x.svc = other) = store.filter fun x => x.svc = other := by
  rw [fdstoreRemove, filter_filter]
  apply filter_congr
  intro x _
  by_cases hx : x.svc = other
  · simp [hx, h]
  · simp [hx]

theorem fdstoreRemove_perm (store : List FdEnt) :
    ((fdstoreRemove svc name store).map FdEnt.fd ++ fdstoreTaken svc name store).Perm (store.map FdEnt.fd) := by
  rw [fdstoreRemove, fdstoreTaken, ← map_append]
  apply List.Perm.map
  exact perm_append_comm.trans (filter_append_perm _ store)

end

/-! ## The unified path -/

def unifiedFrom (lineStart : Bool) : Bytes → Option Bytes
  | [] => none
  | c :: rest =>
    if lineStart && startsWith (cstr "0::") (c :: rest) then some (upTo [ch '\n'] ((c :: rest).drop 3))
    else unifiedFrom (c = ch '\n') rest

/-- The unified-hierarchy cgroup path that a `/proc/<pid>/cgroup` text gives. -/
def unifiedPath (file : Bytes) : Option Bytes :=
  unifiedFrom true file

/-- The text places the process in the cgroup or, by whole components, below it. -/
def Inside (file cgPath : Bytes) : Prop :=
  ∃ want path, cgPath = cstr "/sys/fs/cgroup" ++ want ∧ want ≠ [] ∧ unifiedPath file = some path ∧
    (path = want ∨ ∃ rest, path = want ++ ch '/' :: rest)

theorem unifiedFrom_of_strstr {lineStart : Bool} {text before line : Bytes}
    (h : strstr (cstr "0::") text = some (before, line))
    (hstart : before = [] ∧ lineStart = true ∨ before.getLast? = some (ch '\n')) :
    unifiedFrom lineStart text = some (upTo [ch '\n'] (line.drop 3)) := by
  induction text generalizing lineStart before with
  | nil => cases h
  | cons c rest ih =>
    simp only [strstr] at h
    split at h
    next hhere =>
      obtain ⟨rfl, rfl⟩ := Prod.mk.inj (Option.some.inj h)
      rcases hstart with ⟨-, rfl⟩ | hlast
      · simp [unifiedFrom, hhere]
      · cases hlast
    next hhere =>
      obtain ⟨found, hfound, heq⟩ := Option.map_eq_some_iff.mp h
      obtain ⟨rfl, rfl⟩ := Prod.mk.inj heq
      have hnot : (lineStart && startsWith (cstr "0::") (c :: rest)) = false := by simp [hhere]
      rw [unifiedFrom, hnot, if_neg (by simp)]
      refine ih hfound ?_
      rcases hstart with ⟨hnil, -⟩ | hlast
      · cases hnil
      · rcases eq_nil_or_concat found.1 with hnil | ⟨l, b, hconcat⟩
        · rw [hnil] at hlast
          left
          exact ⟨hnil, by simpa using hlast⟩
        · right
          rw [hconcat] at hlast ⊢
          simpa [getLast?_cons] using hlast

theorem notifyReadCgroup_append (file : Bytes) : ∃ tail, file = notifyReadCgroup file ++ tail := by
  refine ⟨(file.take (notifyCgroupTextMax - 1)).dropWhile (· ≠ 0) ++ file.drop (notifyCgroupTextMax - 1), ?_⟩
  rw [notifyReadCgroup, cstrAt, drop_zero, ← append_assoc, takeWhile_append_dropWhile, take_append_drop]

/-- The buffer ends inside a component of the unified path: after `path` the file goes on with a
byte that ends neither the line nor the component. -/
def CutInside (file : Bytes) : Prop :=
  ∃ before path b tail, file = notifyReadCgroup file ++ b :: tail ∧
    strstr (cstr "0::") (notifyReadCgroup file) = some (before, cstr "0::" ++ path) ∧
    (before = [] ∨ before.getLast? = some (ch '\n')) ∧ path ≠ [] ∧ path.length < 242 ∧ ch '\n' ∉ path ∧
    b ≠ ch '\n' ∧ b ≠ ch '/'

def cgroupMount : Bytes :=
  cstr "/sys/fs/cgroup"

theorem cgroupMount_length : cgroupMount.length = 14 := by decide

theorem matches_iff {text cgPath : Bytes} : notifyCgroupTextMatches text cgPath = true ↔
      ∃ want before rest, cgPath = cgroupMount ++ want ∧ want ≠ [] ∧
        strstr (cstr "0::") text = some (before, cstr "0::" ++ rest) ∧
          (before = [] ∨ before.getLast? = some (ch '\n')) ∧
        (upTo [ch '\n'] rest = want ∨ ∃ more, upTo [ch '\n'] rest = want ++ ch '/' :: more) := by
  constructor
  · intro h
    unfold notifyCgroupTextMatches at h
    split at h
    · cases h
    next hroot =>
      obtain ⟨want, rfl⟩ := startsWith_iff.mp (by simpa using hroot)
      have hdrop : (cstr "/sys/fs/cgroup" ++ want).drop 14 = want := drop_left' cgroupMount_length
      dsimp only at h
      rw [hdrop] at h
      split at h
      · cases h
      next hwant =>
        split at h
        · cases h
        next before line hfound =>
          split at h
          · cases h
          next hbefore =>
            obtain ⟨rest, rfl⟩ := startsWith_iff.mp (strstr_split hfound).2
            have hrest : (cstr "0::" ++ rest).drop 3 = rest := rfl
            rw [hrest, Bool.and_eq_true, Bool.or_eq_true] at h
            obtain ⟨more, hmore⟩ := startsWith_iff.mp h.1
            refine ⟨want, before, rest, rfl, by simpa using hwant, hfound, ?_, ?_⟩
            · by_cases hnil : before = []
              · exact .inl hnil
              · exact .inr (by simpa [hnil] using hbefore)
            · rw [hmore] at h ⊢
              rcases h.2 with hlen | hslash
              · have hnil : more = [] := by simpa using hlen
                exact .inl (by rw [hnil, append_nil])
              · rw [drop_left, decide_eq_true_eq] at hslash
                cases more with
                | nil => cases hslash
                | cons c more =>
                  obtain rfl := Option.some.inj hslash
                  exact .inr ⟨more, rfl⟩
  · rintro ⟨want, before, rest, rfl, hwant, hfound, hbefore, hpath⟩
    have hroot : startsWith (cstr "/sys/fs/cgroup") (cgroupMount ++ want) = true := startsWith_append _ _
    have hdrop : (cgroupMount ++ want).drop 14 = want := drop_left' cgroupMount_length
    have hrest : (cstr "0::" ++ rest).drop 3 = rest := rfl
    have hline : (!before.isEmpty && decide (before.getLast? ≠ some (ch '\n'))) = false := by
      rcases hbefore with rfl | hlast
      · rfl
      · simp [hlast]
    simp only [notifyCgroupTextMatches, hroot, hdrop, hfound, hline, hrest, Bool.not_true, Bool.false_eq_true, if_false,
      List.isEmpty_iff, hwant]
    rcases hpath with hpath | ⟨more, hpath⟩
    · rw [hpath]
      simp [startsWith]
    · rw [hpath, startsWith_append]
      simp

theorem unifiedPath_of_buffer {file before rest tail : Bytes} (hfile : file = notifyReadCgroup file ++ tail)
    (hfound : strstr (cstr "0::") (notifyReadCgroup file) = some (before, cstr "0::" ++ rest))
    (hbefore : before = [] ∨ before.getLast? = some (ch '\n')) :
    unifiedPath file = some (upTo [ch '\n'] (rest ++ tail)) := by
  have hwhole := strstr_append tail hfound (by decide)
  rw [← hfile] at hwhole
  refine unifiedFrom_of_strstr hwhole ?_
  rcases hbefore with rfl | hlast
  · exact .inl ⟨rfl, rfl⟩
  · exact .inr hlast

theorem inside_of_holds {file cgPath : Bytes} (hlen : cgPath.length < 256) (h : cgroupHolds file cgPath = true) :
    Inside file cgPath ∨ CutInside file := by
  obtain ⟨want, before, rest, hcg, hwant, hfound, hbefore, hpath⟩ := matches_iff.mp (Bool.and_eq_true_iff.mp h).2
  obtain ⟨tail, hfile⟩ := notifyReadCgroup_append file
  have hunified := unifiedPath_of_buffer hfile hfound hbefore
  by_cases hnl : ch '\n' ∈ rest
  · rw [upTo_append_of_mem tail hnl] at hunified
    exact .inl ⟨want, _, hcg, hwant, hunified, hpath⟩
  · have hrest : upTo [ch '\n'] rest = rest := by simpa [upTo] using upTo_append_of_not_mem [] hnl
    rw [upTo_append_of_not_mem tail hnl] at hunified
    rw [hrest] at hpath
    rcases hpath with rfl | ⟨more, hmore⟩
    · cases tail with
      | nil => exact .inl ⟨rest, _, hcg, hwant, hunified, .inl (by simp [upTo])⟩
      | cons b tail =>
        by_cases hb : b = ch '\n'
        · exact .inl ⟨rest, _, hcg, hwant, hunified, .inl (by simp [upTo, hb])⟩
        · by_cases hslash : b = ch '/'
          · refine .inl ⟨rest, _, hcg, hwant, hunified, .inr ⟨upTo [ch '\n'] tail, ?_⟩⟩
            have hup : upTo [ch '\n'] (b :: tail) = b :: upTo [ch '\n'] tail := by simp [upTo, hb]
            rw [hup, hslash]
          · refine .inr ⟨before, rest, b, tail, hfile, hfound, hbefore, hwant, ?_, hnl, hb, hslash⟩
            rw [hcg, length_append, cgroupMount_length] at hlen
            omega
    · exact .inl ⟨want, _, hcg, hwant, hunified, .inr ⟨more ++ upTo [ch '\n'] tail, by rw [hmore]; simp⟩⟩

theorem holds_of_cutInside {file : Bytes} (h : CutInside file) :
    ∃ cgPath, cgPath.length < 256 ∧ cgPath ≠ [] ∧ cgroupHolds file cgPath = true ∧ ¬ Inside file cgPath := by
  obtain ⟨before, path, b, tail, hfile, hfound, hbefore, hne, hshort, hnl, hb, hslash⟩ := h
  have hpath : upTo [ch '\n'] path = path := by simpa [upTo] using upTo_append_of_not_mem [] hnl
  refine ⟨cgroupMount ++ path, ?_, by simp [hne], ?_, ?_⟩
  · rw [length_append, cgroupMount_length]
    omega
  · have hsome : file ≠ [] := by
      rw [hfile]
      simp
    rw [cgroupHolds, Bool.and_eq_true]
    exact ⟨by simpa using hsome, matches_iff.mpr ⟨path, before, path, rfl, hne, hfound, hbefore, .inl hpath⟩⟩
  · rintro ⟨want, path', hcg, -, hunified, hwhere⟩
    obtain rfl : path = want := append_cancel_left hcg
    have hunified' := unifiedPath_of_buffer hfile hfound hbefore
    have hup : upTo [ch '\n'] (b :: tail) = b :: upTo [ch '\n'] tail := by simp [upTo, hb]
    rw [upTo_append_of_not_mem _ hnl, hup] at hunified'
    obtain rfl := Option.some.inj (hunified.symm.trans hunified')
    rcases hwhere with heq | ⟨more, heq⟩
    · have := congrArg List.length heq
      simp at this
    · have := append_cancel_left heq
      exact hslash (List.cons.inj this).1

/-! ## The store and the closers -/

theorem hearStores_perm (w : World) (i : Nat) (m : Msg) (e : Pid1) (hname : m.busname = [])
    (hi : e.services.findIdx? (hears w m) = some i) :
    ((e.hearStores w i m).fdstore.map FdEnt.fd ++ notifyCloses w m e).Perm (e.fdstore.map FdEnt.fd ++ m.fds) := by
  have hcloses : notifyCloses w m e = if !(e.at_ i).stores m then m.fds else
        let r := if m.fdstore then
            fdstoreAddAll w (e.at_ i).conf.name m.fdname (e.at_ i).conf.fdstoreMax m.fds e.fdstore
          else (e.fdstore, m.fds)
        (if m.fdstoreRemove then fdstoreTaken (e.at_ i).conf.name m.fdname r.1 else []) ++ r.2 := by
    simp [notifyCloses, hname, hi]
  rw [hcloses, hearStores]
  split
  · exact .refl _
  · -- first what the store takes, then what is removed from it
    have hadd : ∃ store refused, (if m.fdstore = true then
          fdstoreAddAll w (e.at_ i).conf.name m.fdname (e.at_ i).conf.fdstoreMax m.fds e.fdstore
        else (e.fdstore, m.fds)) = (store, refused) ∧
        (if m.fdstore = true then
          m.fds.foldl (fdstoreAdd w (e.at_ i).conf.name m.fdname (e.at_ i).conf.fdstoreMax) e.fdstore
        else e.fdstore) = store ∧
        (store.map FdEnt.fd ++ refused).Perm (e.fdstore.map FdEnt.fd ++ m.fds) := by
      split
      · exact ⟨_, _, rfl, (fdstoreAddAll_fst _ _).symm, fdstoreAddAll_perm _ _⟩
      · exact ⟨_, _, rfl, rfl, .refl _⟩
    obtain ⟨store, refused, hpair, hstore, hperm⟩ := hadd
    rw [hpair, hstore]
    refine List.Perm.trans ?_ hperm
    split
    · rw [← append_assoc]
      exact (fdstoreRemove_perm store).append_right refused
    · exact .refl _

theorem notifyPoll_perm (w : World) (m : Msg) (e : Pid1) :
    ((e.notifyPoll w m).fdstore.map FdEnt.fd ++ notifyCloses w m e).Perm (e.fdstore.map FdEnt.fd ++ m.fds) := by
  by_cases hname : m.busname = []
  · cases hi : e.services.findIdx? (hears w m) with
    | none =>
      have hsame : e.notifyPoll w m = e := by simp [notifyPoll, hname, hi]
      have hcloses : notifyCloses w m e = m.fds := by simp [notifyCloses, hname, hi]
      rw [hsame, hcloses]
    | some i =>
      have hstore : (e.notifyPoll w m).fdstore = (e.hearStores w i m).fdstore := by
        simp only [notifyPoll, hname, hi, isEmpty_nil, Bool.not_true, Bool.false_eq_true, if_false]
        split
        · exact fdstore_on w i _ _
        · rfl
      rw [hstore]
      exact hearStores_perm w i m e hname hi
  · have hcloses : notifyCloses w m e = m.fds := by simp [notifyCloses, hname]
    have hstore : (e.notifyPoll w m).fdstore = e.fdstore := by
      have hbus : (!m.busname.isEmpty) = true := by simpa using hname
      rw [notifyPoll, if_pos hbus]
      split
      · rfl
      · rfl
    rw [hcloses, hstore]

theorem hearStores_other {w : World} {i : Nat} {m : Msg} {e : Pid1} {name : Bytes}
    (h : (e.hearStores w i m).fdstore.filter (fun x => x.svc = name) ≠ e.fdstore.filter fun x => x.svc = name) :
    (e.at_ i).conf.name = name ∧ (e.at_ i).rt.childPid = m.pid := by
  have hstores : (e.at_ i).stores m = true := by
    by_contra hno
    have hnot : (!(e.at_ i).stores m) = true := by simpa using hno
    apply h
    rw [hearStores]
    rw [if_pos hnot]
  refine ⟨?_, by simpa using (Bool.and_eq_true_iff.mp hstores).2⟩
  by_contra hname
  apply h
  simp only [hearStores, hstores, Bool.not_true, Bool.false_eq_true, if_false]
  split
  · rw [fdstoreRemove_other (Ne.symm hname)]
    split
    · exact fdstoreAdd_other (Ne.symm hname) _ _
    · rfl
  · split
    · exact fdstoreAdd_other (Ne.symm hname) _ _
    · rfl

/-! ## Attribution -/

def NotifyEnv.BelongsTo (env : NotifyEnv) (pid : Nat) (s : Service) : Prop :=
  s.rt.childPid = pid ∨ Inside (env.cgroupText pid) s.rt.cgroupPath

/-- The datagram may count for the service: its sender belongs to it, or root's broker reports an
owner that does. -/
def NotifyEnv.Attributed (env : NotifyEnv) (d : Datagram) (s : Service) : Prop :=
  ∃ pid uid, d.creds = some (pid, uid) ∧
    (env.BelongsTo pid s ∨
      (notifyParse d.data).2.busname ≠ [] ∧ uid = 0 ∧ notifyBrokerExeOk (env.exeText pid) = true ∧
        env.BelongsTo (notifyParse d.data).2.busOwnerPid s)

def Pid1.storedFor (e : Pid1) (name : Bytes) : List FdEnt :=
  e.fdstore.filter fun x => x.svc = name

/-- What a datagram may do to an engine: change the services it is attributed to, change what is
stored for the sender's service, and pass every descriptor to the store or to a closer. -/
structure Honest (env : NotifyEnv) (d : Datagram) (e : Pid1) (r : Pid1 × List Int) : Prop where
  services : ∀ i, r.1.at_ i ≠ e.at_ i → env.Attributed d (e.at_ i)
  stored : ∀ name, r.1.storedFor name ≠ e.storedFor name →
    ∃ i pid uid, d.creds = some (pid, uid) ∧ (e.at_ i).conf.name = name ∧ (e.at_ i).rt.childPid = pid
  fds : (r.1.fdstore.map FdEnt.fd ++ r.2).Perm (e.fdstore.map FdEnt.fd ++ d.fds)

def Pid1.PathsFit (e : Pid1) : Prop :=
  ∀ s ∈ e.services, s.rt.cgroupPath.length < 256

section
variable {env : NotifyEnv} {d : Datagram} {e : Pid1}

theorem msg_cases {acted : Bool} {m : Msg} (h : d.msg env = some (acted, m)) :
    ∃ pid uid, d.creds = some (pid, uid) ∧ 0 < pid ∧ m.pid = pid ∧ m.broker = env.senderIsBroker pid uid ∧
      m.busname = (notifyParse d.data).2.busname ∧ m.busOwnerPid = (notifyParse d.data).2.busOwnerPid ∧
      m.fds = d.fds.take notifyMaxFds := by
  unfold Datagram.msg at h
  split at h
  · cases h
  next pid uid hcreds =>
    split at h
    · cases h
    next hgood =>
      simp only [Bool.or_eq_true, decide_eq_true_eq, not_or] at hgood
      obtain ⟨rfl, rfl⟩ := Prod.mk.inj (Option.some.inj h)
      exact ⟨pid, uid, hcreds, by omega, rfl, rfl, rfl, rfl, rfl⟩

theorem belongsTo_of_test {pid : Nat} {s : Service} (hpid : 0 < pid)
    (hcut : ∀ pid, 0 < pid → ¬ CutInside (env.cgroupText pid)) (hfit : s.rt.cgroupPath.length < 256)
    (h : (decide (s.rt.childPid = pid) ||
      (!s.rt.cgroupPath.isEmpty && env.world.inCgroup pid s.rt.cgroupPath)) = true) :
    env.BelongsTo pid s := by
  rcases Bool.or_eq_true_iff.mp h with hmain | hcgroup
  · exact .inl (by simpa using hmain)
  · have hholds : cgroupHolds (env.cgroupText pid) s.rt.cgroupPath = true := (Bool.and_eq_true_iff.mp hcgroup).2
    exact .inr ((inside_of_holds hfit hholds).resolve_right (hcut pid hpid))

theorem fits_at (hfit : e.PathsFit) (i : Nat) : (e.at_ i).rt.cgroupPath.length < 256 := by
  rw [at_, getD_eq_getElem?_getD]
  cases hget : e.services[i]? with
  | none => decide
  | some s => exact hfit s (mem_of_getElem? hget)

theorem at_findIdx {p : Service → Bool} {i : Nat} (h : e.services.findIdx? p = some i) : p (e.at_ i) = true := by
  obtain ⟨hlt, hp, -⟩ := findIdx?_eq_some_iff_getElem.mp h
  rw [at_, getD_eq_getElem?_getD, getElem?_eq_getElem hlt]
  exact hp

theorem Honest.unchanged {closed : List Int} (h : closed.Perm d.fds) : Honest env d e (e, closed) where
  services _ hi := absurd rfl hi
  stored _ hname := absurd rfl hname
  fds := h.append_left _

theorem drop_take_perm (n : Nat) : (d.fds.drop n ++ d.fds.take n).Perm d.fds := by
  have hswap : (d.fds.drop n ++ d.fds.take n).Perm (d.fds.take n ++ d.fds.drop n) := perm_append_comm
  rwa [take_append_drop] at hswap

theorem beyond_perm {n : Nat} {store closed stored : List Int} (h : (store ++ closed).Perm (stored ++ d.fds.take n)) :
    (store ++ (d.fds.drop n ++ closed)).Perm (stored ++ d.fds) := by
  calc (store ++ (d.fds.drop n ++ closed)).Perm (d.fds.drop n ++ (store ++ closed)) := perm_append_comm_assoc ..
    _ |>.Perm (d.fds.drop n ++ (stored ++ d.fds.take n)) := h.append_left _
    _ |>.Perm (stored ++ (d.fds.drop n ++ d.fds.take n)) := perm_append_comm_assoc ..
    _ |>.Perm (stored ++ d.fds) := (drop_take_perm n).append_left _

theorem honest_of_uncut (hcut : ∀ pid, 0 < pid → ¬ CutInside (env.cgroupText pid)) (hfit : e.PathsFit) :
    Honest env d e (notifyDatagram env d e) := by
  unfold notifyDatagram
  cases hmsg : d.msg env with
  | none => exact .unchanged (.refl _)
  | some r =>
    obtain ⟨acted, m⟩ := r
    obtain ⟨pid, uid, hcreds, hpid, hmpid, hbroker, hname, howner, hfds⟩ := msg_cases hmsg
    dsimp only
    split
    · refine .unchanged ?_
      rw [hfds]
      exact drop_take_perm notifyMaxFds
    · have hcases := notifyPoll_cases env.world m e
      have hperm := notifyPoll_perm env.world m e
      rw [hfds] at hperm
      generalize e.notifyPoll env.world m = e' at hcases hperm ⊢
      refine ⟨?_, ?_, beyond_perm hperm⟩
      · intro i hi
        cases hcases with
        | nothing => exact absurd rfl hi
        | bus hbus hownerpid hbroker' hsvcs _ =>
          have howns := (hsvcs i).resolve_left hi
          rw [ownsBus, Bool.and_eq_true, howner] at howns
          rw [hbroker, NotifyEnv.senderIsBroker] at hbroker'
          simp only [Bool.and_eq_true, decide_eq_true_eq] at hbroker'
          have hbelongs := belongsTo_of_test (by omega) hcut (fits_at hfit i) howns.2
          exact ⟨pid, uid, hcreds, .inr ⟨hname ▸ hbus, hbroker'.1.1, hbroker'.2, hbelongs⟩⟩
        | @heard _ k _ hfind hothers _ =>
          have hk : k = i := by
            by_contra hne
            exact hi (hothers i hne)
          subst hk
          have hhears := at_findIdx hfind
          rw [hears, Bool.and_eq_true, hmpid] at hhears
          exact ⟨pid, uid, hcreds, .inl (belongsTo_of_test hpid hcut (fits_at hfit k) hhears.2)⟩
      · intro name hchanged
        cases hcases with
        | nothing => exact absurd rfl hchanged
        | bus _ _ _ _ hstore =>
          rw [storedFor, hstore] at hchanged
          exact absurd rfl hchanged
        | @heard _ k _ _ _ hstore =>
          rw [storedFor, hstore] at hchanged
          obtain ⟨hsvc, hchild⟩ := hearStores_other hchanged
          exact ⟨k, pid, uid, hcreds, hsvc, hchild.trans hmpid⟩

end

/-! ## The result -/

def listener (child : Nat) (cgPath : Bytes) : Service :=
  let s := Service.fresh { name := cstr "foo", exec := cstr "/bin/foo", notify := true } {}
  { s with rt.childPid := child, rt.cgroupPath := cgPath }

def saysStatus (pid : Nat) : Datagram where
  data := cstr "STATUS=x"
  creds := some (pid, 1000)

theorem parse_status : notifyParse (cstr "STATUS=x") = (true, { pid := 0, status := cstr "x" }) := by
  decide +kernel

section
variable {env : NotifyEnv} {pid child : Nat} {cgPath : Bytes}

theorem status_heard (hpid : 0 < pid) (hchild : 0 < child) (hpath : cgPath ≠ [])
    (hholds : cgroupHolds (env.cgroupText pid) cgPath = true) :
    ((notifyDatagram env (saysStatus pid) { services := [listener child cgPath] }).1.at_ 0).rt.ready.notifyStatus =
      cstr "x" := by
  let m : Msg := { pid := pid, status := cstr "x", broker := env.senderIsBroker pid 1000 }
  have hmsg : (saysStatus pid).msg env = some (true, m) := by
    have hne : pid ≠ 0 := by omega
    have hdata : (cstr "STATUS=x").isEmpty = false := rfl
    simp only [Datagram.msg, saysStatus, parse_status, hne, hdata, decide_false,
      Bool.or_false, Bool.false_eq_true, if_false]
    rfl
  have hhears : (listener child cgPath).hears env.world m = true := by
    have htest : env.world.inCgroup m.pid cgPath = true := hholds
    simp [hears, listener, fresh, hchild, hpath, htest]
  have hfind : [listener child cgPath].findIdx? (hears env.world m) = some 0 := by
    simp [findIdx?_cons, hhears]
  have hpoll : notifyPoll env.world m { services := [listener child cgPath] } =
      ({ services := [listener child cgPath] } : Pid1).on env.world 0 (Loc.hear env.world m) := by
    simp only [notifyPoll, hfind]
    rfl
  rw [notifyDatagram, hmsg]
  show ((notifyPoll env.world m _).at_ 0).rt.ready.notifyStatus = _
  have hfirst : 0 < ({ services := [listener child cgPath] } : Pid1).count := Nat.zero_lt_one
  rw [hpoll, at_on hfirst]
  rfl

theorem status_changes (hpid : 0 < pid) (hchild : 0 < child) (hpath : cgPath ≠ [])
    (hholds : cgroupHolds (env.cgroupText pid) cgPath = true) :
    (notifyDatagram env (saysStatus pid) { services := [listener child cgPath] }).1.at_ 0 ≠ listener child cgPath := by
  intro heq
  have hstatus := status_heard hpid hchild hpath hholds
  rw [heq] at hstatus
  cases hstatus

theorem status_not_attributed (hchild : child ≠ pid) (hnot : ¬ Inside (env.cgroupText pid) cgPath) :
    ¬ env.Attributed (saysStatus pid) (listener child cgPath) := by
  rintro ⟨pid', uid, hcreds, hwhy⟩
  obtain ⟨rfl, rfl⟩ := Prod.mk.inj (Option.some.inj hcreds)
  rcases hwhy with (hmain | hinside) | ⟨hbus, -⟩
  · exact hchild hmain
  · exact hnot hinside
  · exact hbus (congrArg (fun r : Bool × Msg => r.2.busname) parse_status)

end

/-- A datagram counts for a service only if its sender, or the owner the broker reports, belongs to
it, exactly if no text of `/proc/<pid>/cgroup` is cut by the buffer inside its unified path.
The store changes for the sender's service alone, and no descriptor is lost or closed twice. -/
theorem notify_attributes_iff (env : NotifyEnv) :
    (∀ (d : Datagram) (e : Pid1), e.PathsFit → Honest env d e (notifyDatagram env d e)) ↔
      ∀ pid, 0 < pid → ¬ CutInside (env.cgroupText pid) := by
  constructor
  · intro hall pid hpid hcut
    obtain ⟨cgPath, hshort, hne, hholds, hnot⟩ := holds_of_cutInside hcut
    have hfit : ({ services := [listener (pid + 1) cgPath] } : Pid1).PathsFit := by
      intro s hs
      obtain rfl := mem_singleton.mp hs
      exact hshort
    have hhonest := hall (saysStatus pid) _ hfit
    exact status_not_attributed (by omega) hnot (hhonest.services 0 (status_changes hpid (by omega) hne hholds))
  · intro hcut d e hfit
    exact honest_of_uncut hcut hfit

/-! ### A cut path -/

def longFront : Bytes :=
  cstr "1:name=" ++ List.replicate 4068 (ch 'x') ++ cstr "\n"

/-- A process of `foobar`: its text is longer than the buffer by the end of its path. -/
def longText : Bytes :=
  longFront ++ cstr "0::/schema-init/foo" ++ cstr "bar\n"

theorem longFront_length : longFront.length = 4076 := by
  rw [longFront, length_append, length_append, length_replicate]
  rfl

theorem longFront_mem {b : UInt8} (h : b ∈ longFront) : b ≠ 0 ∧ b ≠ ch '0' := by
  simp only [longFront, mem_append, mem_replicate] at h
  rcases h with (h | ⟨-, rfl⟩) | h
  · revert b
    decide +kernel
  · decide
  · revert b
    decide +kernel

theorem notifyReadCgroup_full {text : Bytes} (tail : Bytes) (hlen : text.length = notifyCgroupTextMax - 1)
    (hnul : ∀ b ∈ text, b ≠ 0) : notifyReadCgroup (text ++ tail) = text := by
  rw [notifyReadCgroup, take_left' hlen, cstrAt, drop_zero]
  exact takeWhile_eq_self_iff.mpr fun b hb => by simpa using hnul b hb

theorem read_longText : notifyReadCgroup longText = longFront ++ cstr "0::/schema-init/foo" := by
  have hline : ∀ b ∈ cstr "0::/schema-init/foo", b ≠ 0 := by decide +kernel
  refine notifyReadCgroup_full (cstr "bar\n") ?_ fun b hb => ?_
  · rw [length_append, longFront_length]
    rfl
  · rcases mem_append.mp hb with hb | hb
    · exact (longFront_mem hb).1
    · exact hline b hb

/-- Its message is taken for one of `foo`. -/
theorem foobar_speaks_for_foo : let env : NotifyEnv := { cgroupText := fun _ => longText }
    let foo := listener 50 (cstr "/sys/fs/cgroup/schema-init/foo")
    unifiedPath longText = some (cstr "/schema-init/foobar") ∧
      (notifyDatagram env (saysStatus 77) { services := [foo] }).1.at_ 0 ≠ foo ∧
        ¬ env.Attributed (saysStatus 77) foo := by
  have hfound : strstr (cstr "0::") (notifyReadCgroup longText) =
      some (longFront, cstr "0::" ++ cstr "/schema-init/foo") := by
    rw [read_longText]
    exact strstr_of_not_mem (fun hmem => (longFront_mem hmem).2 rfl) rfl
  have hfront : longFront.getLast? = some (ch '\n') := by
    rw [longFront, getLast?_append]
    rfl
  have hfile : longText = notifyReadCgroup longText ++ cstr "bar\n" := by rw [read_longText, longText]
  have hpath : unifiedPath longText = some (cstr "/schema-init/foobar") :=
    unifiedPath_of_buffer hfile hfound (.inr hfront)
  have hholds : cgroupHolds longText (cstr "/sys/fs/cgroup/schema-init/foo") = true := by
    rw [cgroupHolds, Bool.and_eq_true]
    refine ⟨?_, matches_iff.mpr ⟨cstr "/schema-init/foo", longFront, _, rfl, by decide, hfound, .inr hfront, .inl rfl⟩⟩
    rw [hfile, read_longText]
    simp [cstr]
  refine ⟨hpath, status_changes (by decide) (by decide) (by decide) hholds, status_not_attributed (by decide) ?_⟩
  rintro ⟨want, path, hcg, -, hunified, hwhere⟩
  have hcg : cstr "/sys/fs/cgroup" ++ cstr "/schema-init/foo" = cstr "/sys/fs/cgroup" ++ want := hcg
  obtain rfl : cstr "/schema-init/foo" = want := append_cancel_left hcg
  obtain rfl := Option.some.inj (hpath.symm.trans hunified)
  rcases hwhere with heq | ⟨rest, heq⟩
  · exact absurd heq (by decide)
  · have hnext : ch 'b' = ch '/' := congrArg (fun l : Bytes => l.getD 16 0) heq
    exact absurd hnext (by decide)

end SchemaInit.Engine
