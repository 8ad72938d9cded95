/-
# `SchemaInit.Dbus.Auth` — the authentication handshake (`sdbus_auth.h`)

A peer sends a `NUL` byte and then lines that end in CRLF.  Only `EXTERNAL` is
offered: the identity a peer claims, the hexadecimal encoding of a decimal uid,
must be the uid the kernel reports for it.  Bytes after `BEGIN` are messages.
-/
import SchemaInit.Dbus.Conn

namespace SchemaInit.Dbus

def maxAuthBytes : Nat := 16 * 1024

/-! ## The claimed identity -/

def hexDigit (b : UInt8) : Option Nat :=
  if ch '0' ≤ b ∧ b ≤ ch '9' then some (b - ch '0').toNat
  else if ch 'a' ≤ b ∧ b ≤ ch 'f' then some ((b - ch 'a').toNat + 10)
  else if ch 'A' ≤ b ∧ b ≤ ch 'F' then some ((b - ch 'A').toNat + 10)
  else none

def hexDecode : Nat → Bytes → Option Bytes
  | 0, _ => some []
  | _ + 1, [] => some []
  | _ + 1, [_] => some []
  | room + 1, a :: b :: rest =>
    match hexDigit a, hexDigit b with
    | some hi, some lo => (hexDecode room rest).map (UInt8.ofNat (16 * hi + lo) :: ·)
    | _, _ => none

/-- `isspace`. -/
def isSpace (b : UInt8) : Bool :=
  b = ch ' ' || (9 ≤ b && b ≤ 13)

def longMax : Int := 2 ^ 63 - 1
def longMin : Int := -2 ^ 63

def strtol (s : Bytes) : Int × Bytes :=
  let p := s.dropWhile isSpace
  let neg := p.head? = some (ch '-')
  let p := if neg ∨ p.head? = some (ch '+') then p.tail else p
  let digits := p.takeWhile isDigit
  if digits = [] then (0, s)
  else
    let v : Int := digits.foldl (fun v d => 10 * v + ((d - ch '0').toNat : Int)) 0
    (if neg then max longMin (-v) else min longMax v, p.drop digits.length)

inductive Claim where
  | bad
  | peer
  | uid (v : Int)

def hexUid (hex : Bytes) : Claim :=
  if hex = [] then .peer
  else if hex.length % 2 = 1 then .bad
  else
    match hexDecode 63 hex with
    | none => .bad
    | some dec =>
      let (v, rest) := strtol (dec.takeWhile (· ≠ 0))
      if rest ≠ [] ∨ v = -1 then .bad
      else if v = -2 then .peer
      else .uid v

def Claim.accepts (k : Claim) (uid : Nat) : Bool :=
  match k with
  | .bad => false
  | .peer => true
  | .uid v => v = uid

/-! ## The handshake -/

def findCrlf : Bytes → Option Nat
  | [] => none
  | b :: rest =>
    if b = ch '\r' ∧ rest.head? = some (ch '\n') then some 0
    else (findCrlf rest).map (· + 1)

def answerIdentity (guid : Bytes) (c : Conn) (arg : Bytes) : Conn :=
  if (hexUid arg).accepts c.creds.uid then
    { c.outAppend (cstr "OK " ++ guid ++ cstr "\r\n") with authOk := true }
  else c.outAppend (cstr "REJECTED EXTERNAL\r\n")

def authLine (guid : Bytes) (c : Conn) (line : Bytes) : Conn :=
  if startsWith (cstr "AUTH EXTERNAL") line then
    let arg := (line.drop 13).dropWhile (· = ch ' ')
    if arg = [] then c.outAppend (cstr "DATA\r\n")
    else answerIdentity guid c arg
  else if line = cstr "DATA" ∨ startsWith (cstr "DATA ") line then
    answerIdentity guid c ((line.drop 4).dropWhile (· = ch ' '))
  else if line = cstr "AUTH" ∨ startsWith (cstr "AUTH ") line then
    c.outAppend (cstr "REJECTED EXTERNAL\r\n")
  else if line = cstr "NEGOTIATE_UNIX_FD" then
    { c.outAppend (cstr "AGREE_UNIX_FD\r\n") with negotiatedFd := true }
  else if line = cstr "CANCEL" then
    { c.outAppend (cstr "REJECTED EXTERNAL\r\n") with authOk := false }
  else c.outAppend (cstr "ERROR\r\n")

inductive AuthResult where
  | begun | going | refused
  deriving DecidableEq

/-- The loop over complete lines; each round consumes at least the CRLF, so the
buffer's length is fuel enough. -/
def authLines (guid : Bytes) : Nat → Conn → Conn × AuthResult
  | 0, c => (c, .going)
  | fuel + 1, c =>
    match findCrlf c.inBuf with
    | none => (c, .going)
    | some nl =>
      -- the line is copied into `line[512]` and read as a C string
      let line := ((c.inBuf.take (min nl 511)).takeWhile (· ≠ 0))
      let c := c.inConsume (nl + 2)
      if line = cstr "BEGIN" then
        if c.authOk then ({ c with authed := true }, .begun) else (c, .refused)
      else authLines guid fuel (authLine guid c line)

def authFeed (guid : Bytes) (c : Conn) (data : Bytes) : Conn × AuthResult :=
  let c := c.inAppend data
  if c.inBuf.length > maxAuthBytes then (c, .refused)
  else if c.sawNul then authLines guid c.inBuf.length c
  else
    match c.inBuf with
    | [] => (c, .going)
    | b :: _ =>
      if b ≠ 0 then (c, .refused)
      else
        let c := { c.inConsume 1 with sawNul := true }
        authLines guid c.inBuf.length c

end SchemaInit.Dbus
