/-
# `SchemaInit.Engine.Ctl` — the control socket

`ctl_poll` takes one line from a client.  A client that is neither root nor the
supervisor's own user gets through only with a line that `ctl_is_readonly` accepts,
which looks at the first word alone; `ctl_cmd` then finds the command by prefixes of
various lengths, and hands what it does not know to a hook with `reexec`, `reboot` and
`poweroff`.

The two readings agree (`readonly_verb`): a line that is accepted is one of the four
reports, or no command at all.  So such lines, and all lines of other users, can be
left out of a run (`ctl_readonly_inert`).

The texts of `status`, `timing` and `analyze` are left to the environment; they are
made from the tables and change nothing but a formatting buffer.
-/
import SchemaInit.Engine.Loop

namespace SchemaInit.Engine

/-! ## Reading a line -/

def skipSpaces (line : Bytes) : Bytes :=
  line.dropWhile (· = ch ' ')

def ctlIsReadonly (line : Bytes) : Bool :=
  let word := upTo (cstr " \t") line
  word = cstr "status" || word = cstr "list" || word = cstr "timing" || word = cstr "analyze"

inductive Verb where
  | status (opt : Bytes)
  | pet (name : Bytes)
  | list
  | start (name : Bytes)
  | stop (name : Bytes)
  | restart (name : Bytes)
  | reset (name : Bytes)
  | add (path : Bytes)
  | reload (opt : Bytes)
  | timing
  | analyze (arg : Bytes)
  /-- left to `engine_hooks.ctl_extra` -/
  | extra

def ctlVerb (line : Bytes) : Verb :=
  if startsWith (cstr "status") line then .status (skipSpaces (line.drop 6))
  else if startsWith (cstr "pet ") line then .pet (line.drop 4)
  else if line = cstr "list" then .list
  else if startsWith (cstr "start ") line then .start (line.drop 6)
  else if startsWith (cstr "up ") line then .start (line.drop 3)
  else if startsWith (cstr "stop ") line || startsWith (cstr "down ") line then .stop (line.drop 5)
  else if startsWith (cstr "restart ") line then .restart (line.drop 8)
  else if startsWith (cstr "reset") line then .reset (skipSpaces (line.drop 5))
  else if startsWith (cstr "add ") line then .add (line.drop 4)
  else if startsWith (cstr "reload") line then .reload (skipSpaces (line.drop 6))
  else if line = cstr "timing" then .timing
  else if line = cstr "analyze" || startsWith (cstr "analyze ") line then .analyze (skipSpaces (line.drop 7))
  else .extra

/-! ## PID 1 and its re-exec -/

structure Reexec where
  checkPid : Nat := 0
  checkOut : Int := -1
  checkKilled : Bool := false
  checkDue : Int := 0
  client : Int := -1
  path : Bytes := []
  target : Int := -1
  deriving DecidableEq

structure Init where
  pid1 : Pid1
  running : Bool := true
  doReboot : Bool := false
  systemState : Nat := 0
  stallCauses : Nat := 0
  bootArgv0 : Bytes := cstr "/sbin/schema-init"
  reexec : Reexec := {}

structure ReexecEnv where
  target : Option Int := none       -- open
  executable : Bool := true         -- fstat
  blob : Option Bytes := none       -- why the state cannot be written
  out : Option Int := none          -- pipe2, the end that is read
  fork : Option Nat := none
  client : Int := -1                -- the connection, duplicated
  nowMs : Int := 0
  strerror : Bytes := []

def reexecCheckMs : Int := 5000

def stallCause (causes : Nat) : Bytes :=
  match causes % 4 with
  | 0 => cstr "cause unknown"
  | 1 => cstr "memory stall"
  | 2 => cstr "critical service starved for CPU"
  | _ => cstr "memory stall + critical service starved for CPU"

def reexecStart (env : ReexecEnv) (path : Bytes) (s : Init) : Init × Option Bytes :=
  if !s.running then (s, some (cstr "shutting down"))
  else if s.reexec.checkPid > 0 then (s, some (cstr "a re-exec is already in progress"))
  else if s.pid1.underPressure then
    (s, some (cstr "under pressure (" ++ stallCause s.stallCauses ++ cstr "); retry after 5 s without a stall"))
  else if !startsWith (cstr "/") path || path.length ≥ 256 then
    (s, some (cstr "'" ++ path ++ cstr "' is not an absolute path"))
  else
    match env.target with
    | none => ({ s with reexec.target := -1 }, some (cstr "open " ++ path ++ cstr ": " ++ env.strerror))
    | some target =>
      if !env.executable then ({ s with reexec.target := -1 },
        some (cstr "'" ++ path ++ cstr "' is not an executable file"))
      else
        match env.blob, env.out, env.fork with
        | some err, _, _ => ({ s with reexec.target := -1 }, some err)
        | none, none, _ => ({ s with reexec.target := -1 }, some (cstr "pipe: " ++ env.strerror))
        | none, some _, none => ({ s with reexec.target := -1 }, some (cstr "fork: " ++ env.strerror))
        | none, some out, some pid =>
          ({ s with
             reexec :=
               { checkPid := pid, checkOut := out, checkKilled := false, checkDue := env.nowMs + reexecCheckMs,
                 client := env.client, path := path, target := target } }, none)

/-! ## Commands -/

structure CtlEnv where
  w : World := {}
  ws : Nat → World := fun _ => {}
  file : Option SvcFile := none              -- what `add` loads
  config : Config := {}                      -- what `reload` loads
  reexec : ReexecEnv := {}
  /-- the texts of `status`, `timing` and `analyze` -/
  report : Verb → Pid1 → Bytes := fun _ _ => []

/-- `pid1_ctl_extra`: `none` if the line is not one of its commands; no reply if that comes later. -/
def pid1CtlExtra (env : CtlEnv) (line : Bytes) (s : Init) : Option (Init × Bytes) :=
  if line = cstr "reexec" || startsWith (cstr "reexec ") line then
    let path := skipSpaces (if line.length > 6 then line.drop 7 else s.bootArgv0)
    match reexecStart env.reexec path s with
    | (s, none) => some (s, [])
    | (s, some err) => some (s, writef (cstr "err: " ++ err.take 319 ++ cstr "\n"))
  else if line = cstr "reboot" then
    some ({ s with systemState := 14, doReboot := true, running := false }, cstr "ok: rebooting\n")
  else if line = cstr "poweroff" then
    some ({ s with systemState := 13, doReboot := false, running := false }, cstr "ok: powering off\n")
  else none

def Init.change (env : CtlEnv) (cmd : Cmd) (s : Init) : Init × Bytes :=
  let r := Pid1.ctlCmd env.w env.ws cmd s.pid1
  ({ s with pid1 := r.1 }, r.2)

def ctlCmdLine (env : CtlEnv) (line : Bytes) (s : Init) : Init × Bytes :=
  match ctlVerb line with
  | .status opt => (s, env.report (.status opt) s.pid1)
  | .pet name => s.change env (.pet name)
  | .list => (s, s.pid1.services.flatMap fun t => writef (t.conf.name ++ cstr "\n"))
  | .start name => s.change env (.start name)
  | .stop name => s.change env (.stop name)
  | .restart name => s.change env (.restart name)
  | .reset name => s.change env (if name.isEmpty then .resetAll else .reset name)
  | .add path => s.change env (.add path env.file)
  | .reload opt => s.change env (.reload (opt = cstr "--evict") env.config)
  | .timing => (s, env.report .timing s.pid1)
  | .analyze arg => (s, env.report (.analyze arg) s.pid1)
  | .extra =>
    match pid1CtlExtra env line s with
    | some r => r
    | none => (s, writef (cstr "err: unknown: " ++ line ++ cstr "\n"))

structure CtlConn where
  env : CtlEnv := {}
  peer : Nat
  sent : Bytes

/-- The line `ctl_poll` reads, if it is complete: at most 255 bytes, and a C string. -/
def CtlConn.line (c : CtlConn) : Option Bytes :=
  let buf := c.sent.take 255
  if buf.contains (ch '\n') then some (upTo (cstr "\r\n") (cstrAt buf 0)) else none

def CtlConn.privileged (euid : Nat) (c : CtlConn) : Bool :=
  c.peer = 0 || c.peer = euid

def ctlPoll (euid : Nat) (c : CtlConn) (s : Init) : Init × Bytes :=
  if c.sent.isEmpty then (s, [])
  else
    match c.line with
    | none => (s, cstr "err: incomplete command\n")
    | some line =>
      if !c.privileged euid && !ctlIsReadonly line then
        (s, writef (cstr "err: '" ++ line ++ cstr "' requires root (uid " ++ cstr (toString (asInt32 c.peer)) ++
          cstr " has read-only access)\n"))
      else ctlCmdLine c.env line s

/-! ## The two readings of a line -/

def Verb.reports : Verb → Bool
  | .status _ | .list | .timing | .analyze _ => true
  | _ => false

theorem readonly_verb {line : Bytes} (h : ctlIsReadonly line = true) :
    (ctlVerb line).reports = true ∨ ctlVerb line = .extra ∧ ∀ env s, pid1CtlExtra env line s = none := by
  obtain ⟨rest, hline⟩ := upTo_append (cstr " \t") line
  simp only [ctlIsReadonly, Bool.or_eq_true, decide_eq_true_eq] at h
  rcases h with ((h | h) | h) | h
  · rw [h] at hline
    left
    rw [ctlVerb, hline, if_pos (startsWith_append _ _)]
    rfl
  · rw [h] at hline
    cases rest with
    | nil =>
      left
      rw [hline]
      rfl
    | cons c rest =>
      right
      rw [hline]
      exact ⟨rfl, fun env s => rfl⟩
  · rw [h] at hline
    cases rest with
    | nil =>
      left
      rw [hline]
      rfl
    | cons c rest =>
      right
      rw [hline]
      exact ⟨rfl, fun env s => rfl⟩
  · rw [h] at hline
    have hverb : ctlVerb (cstr "analyze" ++ rest) =
        if cstr "analyze" ++ rest = cstr "analyze" || startsWith (cstr "analyze ") (cstr "analyze" ++ rest) then
          .analyze (skipSpaces rest)
        else .extra := rfl
    -- `analyze` is known alone and with a blank behind it, but not with a tab
    rw [hline, hverb]
    split
    · exact .inl rfl
    · exact .inr ⟨rfl, fun env s => rfl⟩

theorem ctlCmdLine_readonly (env : CtlEnv) {line : Bytes} (s : Init) (h : ctlIsReadonly line = true) :
    (ctlCmdLine env line s).1 = s := by
  unfold ctlCmdLine
  rcases readonly_verb h with hreports | ⟨hextra, hnone⟩
  · generalize ctlVerb line = verb at hreports
    cases verb with
    | status | list | timing | analyze => rfl
    | _ => cases hreports
  · rw [hextra]
    rw [hnone]

/-! ## Runs -/

inductive CtlEvent where
  /-- a connection on the control socket -/
  | poll (c : CtlConn)
  /-- the other events of the loop -/
  | input (i : Input)
  /-- the signals that end PID 1 -/
  | signal (reboot : Bool)

def Init.step (euid : Nat) (s : Init) (e : CtlEvent) : Init :=
  if !s.running then s
  else
    match e with
    | .poll c => (ctlPoll euid c s).1
    | .input i => { s with pid1 := s.pid1.step i }
    | .signal reboot => { s with running := false, doReboot := reboot, systemState := if reboot then 14 else 13 }

def CtlEvent.counts (euid : Nat) : CtlEvent → Bool
  | .poll c => c.privileged euid && !(c.line.any ctlIsReadonly)
  | _ => true

theorem ctlPoll_inert {euid : Nat} {c : CtlConn} (s : Init) (h : (CtlEvent.poll c).counts euid = false) :
    (ctlPoll euid c s).1 = s := by
  unfold ctlPoll
  split
  · rfl
  · split
    · rfl
    next line hline =>
      split
      · rfl
      next hpass =>
        apply ctlCmdLine_readonly
        cases hpriv : c.privileged euid with
        | false => simpa [hpriv] using hpass
        | true => simpa [CtlEvent.counts, hpriv, hline] using h

theorem step_inert {euid : Nat} {e : CtlEvent} (s : Init) (h : e.counts euid = false) : s.step euid e = s := by
  unfold Init.step
  split
  · rfl
  · cases e with
    | poll c => exact ctlPoll_inert s h
    | input i => cases h
    | signal reboot => cases h

theorem foldl_counts (euid : Nat) (s : Init) (es : List CtlEvent) :
    es.foldl (Init.step euid) s = (es.filter (CtlEvent.counts euid)).foldl (Init.step euid) s := by
  rw [List.foldl_filter]
  congr 1
  funext s e
  cases h : e.counts euid with
  | true => rfl
  | false => exact step_inert s h

/-- A line that `ctl_is_readonly` accepts leaves everything as it is, and two runs that differ only
in such lines, or in lines of unprivileged clients, lead to the same state. -/
theorem ctl_readonly_inert :
    (∀ (env : CtlEnv) (line : Bytes) (s : Init), ctlIsReadonly line = true → (ctlCmdLine env line s).1 = s) ∧
      ∀ (euid : Nat) (s : Init) (xs ys : List CtlEvent),
        xs.filter (CtlEvent.counts euid) = ys.filter (CtlEvent.counts euid) →
          xs.foldl (Init.step euid) s = ys.foldl (Init.step euid) s := by
  refine ⟨fun env line s h => ctlCmdLine_readonly env s h, fun euid s xs ys h => ?_⟩
  rw [foldl_counts euid s xs, h, ← foldl_counts euid s ys]

/-- A user asks for the status with a tab where `ctl_cmd` wants a blank, and for a reboot. -/
theorem ctl_readonly_inert_user : ctlIsReadonly (cstr "analyze\tfoo") = true ∧
      (∀ env s, (ctlCmdLine env (cstr "analyze\tfoo") s).1 = s) ∧
      ∀ s : Init, [CtlEvent.poll { peer := 1000, sent := cstr "status\n" },
        .poll { peer := 1000, sent := cstr "reboot\n" },
        .signal true].foldl (Init.step 0) s = [CtlEvent.signal true].foldl (Init.step 0) s :=
  ⟨by decide, fun env s => ctl_readonly_inert.1 env _ s (by decide), fun s => ctl_readonly_inert.2 0 s _ _ rfl⟩

end SchemaInit.Engine
