/-
# `SchemaInit.Dbus.FeltPolicy` — the Python reference (`tools/dbus-learn/felt_policy.py`)

The reference the C policy engine was ported from.  A `str` is a list of bytes:
the texts compared here are ASCII, and for ASCII characters the tables of
`str.strip` and `str.splitlines` are as below.  A `dict` is its items in
insertion order.  A request is the dict the functions look fields up in; a field
that is absent and one that is `None` are the same to them.
-/
import SchemaInit.Dbus.PolicyText

namespace SchemaInit.Dbus.Felt

/-! ## Texts -/

/-- `str.isspace` on ASCII: the C blanks and the four separators 0x1c to 0x1f. -/
def isSpace (b : UInt8) : Bool :=
  b = ch ' ' || (9 ≤ b && b ≤ 13) || (28 ≤ b && b ≤ 31)

def strip (s : Bytes) : Bytes :=
  Text.trim isSpace s

def isBreak (b : UInt8) : Bool :=
  (10 ≤ b && b ≤ 13) || (28 ≤ b && b ≤ 30)

def splitlinesFrom : Bytes → Bytes → List Bytes
  | cur, [] => if cur = [] then [] else [cur]
  | cur, [b] => if isBreak b then [cur] else [cur ++ [b]]
  | cur, b :: b' :: rest =>
    if b = ch '\r' ∧ b' = ch '\n' then cur :: splitlinesFrom [] rest
    else if isBreak b then cur :: splitlinesFrom [] (b' :: rest)
    else splitlinesFrom (cur ++ [b]) (b' :: rest)

def splitlines (s : Bytes) : List Bytes :=
  splitlinesFrom [] s

/-- The digits of an integer literal: single underscores may stand between digits. -/
def digitsOf : Bytes → Option Bytes
  | [] => none
  | [d] => if isDigit d then some [d] else none
  | d :: u :: rest =>
    if isDigit d = false then none
    else if u = ch '_' then (digitsOf rest).map (d :: ·)
    else (digitsOf (u :: rest)).map (d :: ·)

/-- Takes blanks around the number, a sign, and single underscores between digits, and refuses more
than 4300 digits. -/
def int (s : Bytes) : Option Int :=
  let s := strip s
  let neg := s.head? = some (ch '-')
  let p := if neg ∨ s.head? = some (ch '+') then s.tail else s
  match digitsOf p with
  | none => none
  | some ds =>
    if ds.length > 4300 then none
    else some (if neg then -(decValue ds : Int) else decValue ds)

/-! ## The policy -/

structure Rule where
  decision : Bytes
  predicates : List (Bytes × Bytes)
  deriving DecidableEq

structure Context where
  kind : Bytes
  selector : Option Bytes
  rules : List Rule
  deriving DecidableEq

def dictSet (d : List (Bytes × Bytes)) (k v : Bytes) : List (Bytes × Bytes) :=
  if k ∈ d.map Prod.fst then d.map (fun p => if p.1 = k then (k, v) else p) else d ++ [(k, v)]

def parsePredicates (spec : Bytes) : List (Bytes × Bytes) :=
  (spec.splitOn (ch ',')).foldl (fun preds part =>
    let part := strip part
    if part = [] then preds
    else
      let (attr, value) := Text.partition (ch ':') part
      dictSet preds (strip attr) (strip value)) []

def parseLine (contexts : List Context) (raw : Bytes) : Option (List Context) :=
  let line := strip (Text.partition (ch '#') raw).1
  if line = [] then some contexts
  else
    let (key, value) := Text.partition (ch '=') line
    let key := strip key
    let value := strip value
    if key = cstr "context" then
      let (kind, selector) := Text.partition (ch ':') value
      let selector := strip selector
      some (contexts ++
        [{ kind := strip kind, selector := if selector = [] then none else some selector, rules := [] }])
    else if key ∈ [cstr "allow", cstr "deny"] then
      match contexts.getLast? with
      | none => none
      | some current =>
        some (contexts.dropLast ++
          [{ current with rules := current.rules ++ [{ decision := key, predicates := parsePredicates value }] }])
    else none

def parsePolicy (text : Bytes) : Option (List Context) :=
  (splitlines text).foldlM parseLine []

/-! ## Requests -/

structure Request where
  op : Bytes
  uid : Option Int
  gids : List Int
  interface : Option Bytes
  member : Option Bytes
  msgtype : Option Bytes
  path : Option Bytes
  destination : Option Bytes
  destinationNames : List Bytes
  name : Option Bytes
  replySerial : Option Nat
  senderName : Option Bytes
  senderNames : List Bytes

def fieldMatches (field : Option Bytes) (value : Bytes) : Bool :=
  if value = cstr "*" then field.isSome else field = some value

def orEmpty (x : Option Bytes) : List Bytes :=
  match x with
  | some (b :: l) => [b :: l]
  | _ => []

/-- The names an identity goes by: its owned names, or the fallback if it owns none. -/
def identityMatches (names : List Bytes) (fallback : Option Bytes) (value : Bytes) : Bool :=
  let names := if names = [] then orEmpty fallback else names
  if value = cstr "*" then names ≠ [] else names.contains value

def scalarField (request : Request) (front attr : Bytes) : Option (Option Bytes) :=
  if attr = front ++ cstr "interface" then some request.interface
  else if attr = front ++ cstr "member" then some request.member
  else if attr = front ++ cstr "type" then some request.msgtype
  else if attr = front ++ cstr "path" then some request.path
  else none

def predicateMatches (request : Request) (attr value : Bytes) : Bool :=
  if attr = cstr "user" then value = cstr "*"
  else if attr = cstr "group" then value = cstr "*"
  else if attr = cstr "own" ∨ attr = cstr "own_prefix" then
    request.op = cstr "own" &&
      (let name := request.name.getD []
       if attr = cstr "own" then value = cstr "*" || value = name
       else startsWith value name)
  else if attr = cstr "send_destination" then
    request.op = cstr "send" && identityMatches request.destinationNames request.destination value
  else
    match scalarField request (cstr "send_") attr with
    | some field => request.op = cstr "send" && fieldMatches field value
    | none =>
      if attr = cstr "receive_sender" then
        request.op = cstr "receive" && identityMatches request.senderNames request.senderName value
      else
        match scalarField request (cstr "receive_") attr with
        | some field => request.op = cstr "receive" && fieldMatches field value
        | none => false

def ruleMatches (rule : Rule) (request : Request) : Bool :=
  rule.predicates.all (fun p => predicateMatches request p.1 p.2)

def applicable (db : Accounts) (context : Context) (request : Request) : Bool :=
  if context.kind = cstr "default" ∨ context.kind = cstr "mandatory" then true
  else if context.kind = cstr "user" then
    match request.uid, context.selector with
    | none, _ => false
    | some _, none => true
    | some uid, some selector =>
      match int selector with
      | some v => v = uid
      | none => (db.uidOf selector).map (fun id => (id : Int)) = some uid
  else if context.kind = cstr "group" then
    if request.gids = [] then false
    else
      match context.selector with
      | none => true
      | some selector =>
        match int selector with
        | some v => request.gids.contains v
        | none =>
          match db.gidOf selector with
          | none => false
          | some id => request.gids.contains (id : Int)
  else false

def isRequestedReply (request : Request) : Bool :=
  request.op = cstr "send" && request.replySerial.isSome &&
    (request.msgtype = some (cstr "method_return") || request.msgtype = some (cstr "error"))

def evaluate (db : Accounts) (contexts : List Context) (request : Request) : Bytes :=
  if isRequestedReply request then cstr "allow"
  else
    let ordered :=
      contexts.filter (fun c => c.kind = cstr "default") ++ contexts.filter (fun c => c.kind = cstr "group") ++
        contexts.filter (fun c => c.kind = cstr "user") ++ contexts.filter (fun c => c.kind = cstr "mandatory")
    ordered.foldl (fun verdict context =>
      if applicable db context request then
        context.rules.foldl (fun verdict rule => if ruleMatches rule request then rule.decision else verdict) verdict
      else verdict) (cstr "deny")

end SchemaInit.Dbus.Felt
