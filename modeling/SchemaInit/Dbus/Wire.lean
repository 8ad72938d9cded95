/-
# `SchemaInit.Dbus.Wire` — the broker's header parser and sender rewrite (`sdbus_wire.h`)

The broker routes on the header and forwards the body as it is.  A message is a
12-byte fixed part, the length of the header-field array, the array itself
(`STRUCT(BYTE code, VARIANT value)`, each aligned to 8), padding to 8, and the
body.

A buffer is a `Bytes` list, its `len` argument the list's length.  Lengths are
`Nat`: the parser bounds every length it takes from the wire by
`SDBUS_MAX_MSG` before it computes with it, so no `int` of the source overflows.
-/
import SchemaInit.Lib.CStr

namespace SchemaInit.Dbus

def typeMethodCall : Nat := 1
def typeMethodReturn : Nat := 2
def typeError : Nat := 3
def typeSignal : Nat := 4
def maxMsg : Nat := 128 * 1024 * 1024

/-- `sdbus_wire_msg`: a parsed header.  A pointer field is `none` for `NULL`; a
number with its `has_` flag is an `Option`. -/
structure WireMsg where
  endianLe : Bool
  type : Nat
  flags : Nat
  serial : Nat
  replySerial : Option Nat
  path : Option Bytes
  interface : Option Bytes
  member : Option Bytes
  errorName : Option Bytes
  destination : Option Bytes
  sender : Option Bytes
  signature : Option Bytes
  arg0 : Option Bytes
  unixFds : Option Nat
  bodyOffset : Nat
  bodyLen : Nat
  totalLen : Nat
  deriving DecidableEq

def WireMsg.noReply (m : WireMsg) : Bool :=
  m.flags % 2 = 1

def rdU32 (buf : Bytes) (off : Nat) (le : Bool) : Nat :=
  let b := fun i => (byteAt buf (off + i)).toNat
  if le then b 0 + b 1 * 2 ^ 8 + b 2 * 2 ^ 16 + b 3 * 2 ^ 24
  else b 3 + b 2 * 2 ^ 8 + b 1 * 2 ^ 16 + b 0 * 2 ^ 24

def align (off a : Nat) : Nat :=
  (off + (a - 1)) / a * a

/-! ## Parsing -/

inductive FieldVal where
  | str (s : Bytes)
  | num (n : Nat)

def fieldType : Nat → Option UInt8
  | 1 => some (ch 'o')
  | 2 | 3 | 4 | 6 | 7 => some (ch 's')
  | 5 | 9 => some (ch 'u')
  | 8 => some (ch 'g')
  | _ => none

def WireMsg.setField (m : WireMsg) (code : Nat) (v : FieldVal) : WireMsg :=
  match code, v with
  | 1, .str s => { m with path := some s }
  | 2, .str s => { m with interface := some s }
  | 3, .str s => { m with member := some s }
  | 4, .str s => { m with errorName := some s }
  | 5, .num n => { m with replySerial := some n }
  | 6, .str s => { m with destination := some s }
  | 7, .str s => { m with sender := some s }
  | 8, .str s => { m with signature := some s }
  | 9, .num n => { m with unixFds := some n }
  | _, _ => m

/-- The value at `off` of a field with type `sig`, and the offset after it. -/
def parseValue (buf : Bytes) (le : Bool) (headerEnd off : Nat) (sig : UInt8) : Option (FieldVal × Nat) :=
  if sig = ch 's' ∨ sig = ch 'o' then
    let off := align off 4
    if off + 4 > headerEnd then none
    else
      let sl := rdU32 buf off le
      let off := off + 4
      -- `sl` bytes and their terminator have to fit, and the terminator to be there
      if sl ≥ headerEnd - off then none
      else if byteAt buf (off + sl) ≠ 0 then none
      else some (.str (cstrAt buf off), off + sl + 1)
  else if sig = ch 'g' then
    if off ≥ headerEnd then none
    else
      let gl := (byteAt buf off).toNat
      let off := off + 1
      if gl ≥ headerEnd - off then none
      else if byteAt buf (off + gl) ≠ 0 then none
      else some (.str (cstrAt buf off), off + gl + 1)
  else if sig = ch 'u' then
    let off := align off 4
    if off + 4 > headerEnd then none
    else some (.num (rdU32 buf off le), off + 4)
  else none

/-- The loop over the header fields from `off` on; `none` is a corrupt header.
Each round consumes at least two bytes, so `headerEnd` is fuel enough. -/
def parseFields (buf : Bytes) (le : Bool) (headerEnd : Nat) : Nat → Nat → WireMsg → Option WireMsg
  | 0, _, m => some m
  | fuel + 1, off, m =>
    if off < headerEnd then
      let off := align off 8
      if off + 2 > headerEnd then some m
      else
        let code := (byteAt buf off).toNat
        let siglen := (byteAt buf (off + 1)).toNat
        let off := off + 2
        if off + siglen + 1 > headerEnd then none
        else
          let sig := byteAt buf off
          match parseValue buf le headerEnd (off + siglen + 1) sig with
          | none => none
          | some (v, off) =>
            if (fieldType code).isSome ∧ fieldType code ≠ some sig then none
            else parseFields buf le headerEnd fuel off (m.setField code v)
    else some m

def parseArg0 (buf : Bytes) (m : WireMsg) : Option Bytes :=
  match m.signature with
  | none => none
  | some sig =>
    if (sig.head? = some (ch 's') ∨ sig.head? = some (ch 'o')) ∧ m.bodyLen ≥ 5 then
      let sl := rdU32 buf m.bodyOffset m.endianLe
      if sl < m.bodyLen - 4 ∧ byteAt buf (m.bodyOffset + 4 + sl) = 0 then
        some (cstrAt buf (m.bodyOffset + 4))
      else none
    else none

inductive Parsed where
  | incomplete
  | corrupt
  | complete (m : WireMsg)
  deriving DecidableEq

def sdbusWireParse (buf : Bytes) : Parsed :=
  if buf.length < 16 then .incomplete
  else if byteAt buf 0 ≠ ch 'l' ∧ byteAt buf 0 ≠ ch 'B' then .corrupt
  else
    let le := byteAt buf 0 = ch 'l'
    let bodyLen := rdU32 buf 4 le
    let farr := rdU32 buf 12 le
    if farr > maxMsg ∨ bodyLen > maxMsg then .corrupt
    else
      let headerEnd := 16 + farr
      let bodyOffset := align headerEnd 8
      let total := bodyOffset + bodyLen
      if total > maxMsg then .corrupt
      else if buf.length < total then .incomplete
      else
        let m : WireMsg :=
          { endianLe := le, type := (byteAt buf 1).toNat, flags := (byteAt buf 2).toNat,
            serial := rdU32 buf 8 le, replySerial := none, path := none, interface := none,
            member := none, errorName := none, destination := none, sender := none,
            signature := none, arg0 := none, unixFds := none,
            bodyOffset := bodyOffset, bodyLen := bodyLen, totalLen := total }
        match parseFields buf le headerEnd headerEnd 16 m with
        | none => .corrupt
        | some m => .complete { m with arg0 := parseArg0 buf m }

def sdbusWireNFds (m : WireMsg) : Int :=
  match m.unixFds with
  | none => 0
  | some n => asInt32 n

/-! ## Writing -/

def wAlign (w : Bytes) (a : Nat) : Bytes :=
  w ++ List.replicate (align w.length a - w.length) 0

def u32Bytes (le : Bool) (v : Nat) : Bytes :=
  let bytes := [UInt8.ofNat v, UInt8.ofNat (v / 2 ^ 8), UInt8.ofNat (v / 2 ^ 16), UInt8.ofNat (v / 2 ^ 24)]
  if le then bytes else bytes.reverse

def wU32 (le : Bool) (w : Bytes) (v : Nat) : Bytes :=
  wAlign w 4 ++ u32Bytes le v

def wStrField (le : Bool) (w : Bytes) (code : UInt8) (sigc : Char) (val : Bytes) : Bytes :=
  let w := wAlign w 8 ++ [code, 1, ch sigc, 0]
  if sigc = 'g' then w ++ [UInt8.ofNat val.length] ++ val ++ [0]
  else wU32 le w val.length ++ val ++ [0]

def wU32Field (le : Bool) (w : Bytes) (code : UInt8) (val : Nat) : Bytes :=
  wU32 le (wAlign w 8 ++ [code, 1, ch 'u', 0]) val

def wOpt {α : Type} (field : Bytes → α → Bytes) (w : Bytes) : Option α → Bytes
  | none => w
  | some v => field w v

def reforwardFields (m : WireMsg) (newSender : Bytes) : Bytes :=
  let le := m.endianLe
  let w := wOpt (fun w => wStrField le w 1 'o') [] m.path
  let w := wOpt (fun w => wStrField le w 2 's') w m.interface
  let w := wOpt (fun w => wStrField le w 3 's') w m.member
  let w := wOpt (fun w => wStrField le w 4 's') w m.errorName
  let w := wOpt (fun w => wU32Field le w 5) w m.replySerial
  let w := wOpt (fun w => wStrField le w 6 's') w m.destination
  let w := wStrField le w 7 's' newSender
  let w := wOpt (fun w => wStrField le w 8 'g') w m.signature
  wOpt (fun w => wU32Field le w 9) w m.unixFds

/-- Writes the message again with the `SENDER` field replaced by the name the broker knows. -/
def sdbusWireReforward (orig : Bytes) (m : WireMsg) (newSender : Bytes) : Bytes :=
  let fw := reforwardFields m newSender
  let w := wU32 m.endianLe (orig.take 12) fw.length ++ fw
  wAlign w 8 ++ (orig.drop m.bodyOffset).take m.bodyLen

end SchemaInit.Dbus
