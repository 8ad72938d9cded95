/-
# `SchemaInit.Udev.Links` — the links of the device manager

A rule asks for a link by a claim: a priority and a device.  `rule_link_resolve` reads the
claims on one name in the order of the directory and keeps the best so far, which is a
running maximum: of the priority, then of being where the link points already, then of
the name, backwards.  So it is `List.argmax` of a key, and the order does not matter.

The links are relative, and the target is written into a buffer.  A target that does not
fit is not written: the link stays as it was (`link_not_moved`).  So the choice is proved for
names and targets that have room (`Room`): in the buffers, and below `NAME_MAX` where the
file system takes them as one name.  The links of `dl_link_one` are cut instead, and one that
lies too deep leads elsewhere (`link_one_level_short`).  Of the file system only the length
of a name is modelled: its calls succeed otherwise.
-/
import SchemaInit.Lib.CStr
import Mathlib.Data.Int.ConditionallyCompleteOrder
import Mathlib.Data.List.Lex
import Mathlib.Data.List.MinMax
import Mathlib.Data.Prod.Lex
import Mathlib.Order.ConditionallyCompleteLattice.Basic

namespace SchemaInit.Udev

open Option List
open UInt8 (toNat)

/-! ## Targets -/

/-- The size of the buffers `target` and `have`. -/
def targetMax : Nat := 600

/-- The loop of `rule_link_target`: a step up for each directory of the name. -/
def ruleLinkUps : Bytes → Bytes → Option Bytes
  | [], out => some out
  | b :: name, out =>
    if b ≠ ch '/' then ruleLinkUps name out
    else if out.length + 3 ≥ targetMax then none
    else ruleLinkUps name (out ++ cstr "../")

/-- `rule_link_target`; `none` is its -1. -/
def ruleLinkTarget (name devname : Bytes) : Option Bytes :=
  match ruleLinkUps name [] with
  | none => none
  | some out => if devname.length ≥ targetMax - out.length then none else some (out ++ devname)

/-- `n` steps up. -/
def ups (n : Nat) : Bytes := (List.replicate n (cstr "../")).flatten

theorem length_ups (n : Nat) : (ups n).length = 3 * n := by
  simp [ups, cstr, Nat.mul_comm]

theorem ups_succ (n : Nat) : ups n ++ cstr "../" = ups (n + 1) := by
  rw [ups, ups, replicate_succ', flatten_append]
  rfl

theorem ruleLinkUps_eq (name : Bytes) (n : Nat) (hn : 3 * n < targetMax) :
    ruleLinkUps name (ups n) =
      if 3 * (n + name.count (ch '/')) < targetMax
      then some (ups (n + name.count (ch '/'))) else none := by
  induction name generalizing n with
  | nil => simp [ruleLinkUps, hn]
  | cons b name ih =>
    unfold ruleLinkUps
    by_cases hb : b = ch '/'
    · rw [if_neg (not_not.mpr hb), length_ups, ups_succ, hb, count_cons_self]
      by_cases hfull : 3 * n + 3 ≥ targetMax
      · rw [if_pos hfull, if_neg (by omega)]
      · rw [if_neg hfull, ih _ (by omega), Nat.add_right_comm, ← Nat.add_assoc]
    · rw [if_pos hb, ih n hn, count_cons_of_ne hb]

theorem ruleLinkTarget_eq (name devname : Bytes) :
    ruleLinkTarget name devname =
      if 3 * name.count (ch '/') + devname.length < targetMax
      then some (ups (name.count (ch '/')) ++ devname) else none := by
  have hups := ruleLinkUps_eq name 0 (by decide)
  rw [Nat.zero_add, show ups 0 = [] from rfl] at hups
  rw [ruleLinkTarget, hups]
  by_cases hfits : 3 * name.count (ch '/') < targetMax
  · rw [if_pos hfits]
    dsimp only
    rw [length_ups]
    split_ifs <;> first | rfl | omega
  · rw [if_neg hfits, if_neg (by omega)]

/-! ## Claims -/

/-- A claim file: `<link_priority> <devname>`. -/
structure Claim where
  prio : Int
  devname : Bytes
  named : devname ≠ []

/-- What `sscanf` reads of it: `%511s` cuts the name (`line[544]` holds more of it). -/
def Claim.scan (c : Claim) : Claim where
  prio := c.prio
  devname := c.devname.take 511
  named := by simp [c.named]

/-- What stands at the path of the link. -/
inductive Entry where
  | absent
  | link (target : Bytes)
  | node
  deriving DecidableEq

/-- What `readlink` leaves in its buffer. -/
def Entry.read : Entry → Bytes
  | .link target => target.take (targetMax - 1)
  | _ => []

/-- `strcmp (a, b) < 0`. -/
def strcmpLt (a b : Bytes) : Bool :=
  a.map toNat < b.map toNat

/-- The `is_cur` of a claim: the link points to it already. -/
def isCur (name cur : Bytes) (c : Claim) : Bool :=
  ruleLinkTarget name c.devname = some cur

/-- One claim in the loop of `rule_link_resolve`, after the best one so far. -/
def takeClaim (name cur : Bytes) : Option Claim → Claim → Option Claim
  | none, c => some c
  | some best, c =>
    if c.prio > best.prio || (c.prio = best.prio && isCur name cur c && !isCur name cur best) ||
        (c.prio = best.prio && !isCur name cur c && !isCur name cur best &&
          strcmpLt c.devname best.devname) then some c
    else some best

/-- The longest name that the file system takes in a directory. -/
def nameMax : Nat := 255

/-- `dev_root`, `claims_dir` and the process id as text. -/
structure Site where
  root : Bytes
  claimsDir : Bytes
  pid : Bytes

/-- The path `dev_root/name` of a link. -/
def Site.path (site : Site) (name : Bytes) : Bytes := site.root ++ ch '/' :: name

/-- The name under which a link is made before it is moved to its place. -/
def Site.temp (site : Site) (name : Bytes) : Bytes :=
  cstr "." ++ (name.reverse.takeWhile (· ≠ ch '/')).reverse ++ cstr ".tmp." ++ site.pid

/-- `rule_link_set`; what is at the path afterwards. -/
def ruleLinkSet (site : Site) (name : Bytes) (devname : Option Bytes) (place : Entry) : Entry :=
  if (site.path name).length ≥ 1024 ∨ place = .node then place
  else
    match devname with
    | none => .absent
    | some devname =>
      match ruleLinkTarget name devname with
      | none => place
      | some target =>
        if place ≠ .absent ∧ place.read = target then place
        else if (site.temp name).length > nameMax then place  -- `symlink` fails
        else .link target

/-- `rule_link_escape` into a buffer of 1024 bytes; `out` is written already. -/
def ruleLinkEscape : Bytes → Bytes → Bytes
  | [], out => out
  | b :: name, out =>
    if out.length + 5 < 1024 then
      ruleLinkEscape name (out ++ if b = ch '/' then cstr "\\x2f" else [b])
    else out

/-- `rule_link_resolve`, when the directory lists the claims in this order. -/
def ruleLinkResolve (site : Site) (name : Bytes) (claims : List Claim) (place : Entry) : Entry :=
  let esc := ruleLinkEscape name []
  let cur := if (site.path name).length < 1024 then place.read else []
  -- `opendir` fails on a name that no directory can have
  let seen := if esc.length > nameMax then [] else claims.map Claim.scan
  if (site.claimsDir ++ ch '/' :: esc).length ≥ 1600 then place
  else ruleLinkSet site name ((seen.foldl (takeClaim name cur) none).map (·.devname)) place

/-- The names and paths of a link fit where the code puts them. -/
structure Room (site : Site) (name : Bytes) : Prop where
  path : (site.path name).length < 1024
  temp : (site.temp name).length ≤ nameMax
  escaped : (ruleLinkEscape name []).length ≤ nameMax
  claims : (site.claimsDir ++ ch '/' :: ruleLinkEscape name []).length < 1600

/-- The device of every claim is read whole, and the target to it fits. -/
def Fits (name : Bytes) (claims : List Claim) : Prop :=
  ∀ c ∈ claims, c.devname.length ≤ 511 ∧ (ruleLinkTarget name c.devname).isSome = true

theorem Room.resolve_eq {site : Site} {name : Bytes} (h : Room site name) {claims : List Claim}
    (hfits : Fits name claims) (place : Entry) :
    ruleLinkResolve site name claims place =
      ruleLinkSet site name
        ((claims.foldl (takeClaim name place.read) none).map (·.devname)) place := by
  have hscan : claims.map Claim.scan = claims := by
    refine (map_congr_left fun c hc => ?_).trans (map_id claims)
    simp [Claim.scan, take_of_length_le (hfits c hc).1]
  simp only [ruleLinkResolve, if_pos h.path, if_neg (not_lt.mpr h.escaped), hscan,
    if_neg (not_le.mpr h.claims)]

/-! ## The best claim -/

/-- What `takeClaim` maximises. -/
def rank (name cur : Bytes) (c : Claim) : Int ×ₗ Bool ×ₗ (List Nat)ᵒᵈ :=
  toLex (c.prio, toLex (isCur name cur c, OrderDual.toDual (c.devname.map toNat)))

variable {site : Site} {name cur devname : Bytes} {c d : Claim} {claims l : List Claim}
variable {place : Entry}

/-- The target of the link to a device. -/
def linkTo (name devname : Bytes) : Bytes := ups (name.count (ch '/')) ++ devname

theorem ruleLinkTarget_some {target : Bytes} (h : ruleLinkTarget name devname = some target) :
    target = linkTo name devname ∧ target.length < targetMax := by
  rw [ruleLinkTarget_eq] at h
  split at h
  next hfits =>
    obtain rfl := some.inj h
    exact ⟨rfl, by rwa [length_append, length_ups]⟩
  · cases h

theorem devname_of_isCur (hc : isCur name cur c = true) (hd : isCur name cur d = true) :
    c.devname = d.devname := by
  have htargetc := (ruleLinkTarget_some (of_decide_eq_true hc)).1
  have htargetd := (ruleLinkTarget_some (of_decide_eq_true hd)).1
  exact append_cancel_left (htargetc.symm.trans htargetd)

theorem foldl_takeClaim (name cur : Bytes) (l : List Claim) :
    l.foldl (takeClaim name cur) none = l.argmax (rank name cur) := by
  refine congrArg (List.foldl · none l) ?_
  funext best c
  cases best with
  | none => rfl
  | some b =>
    have hlt : rank name cur b < rank name cur c ↔ b.prio < c.prio ∨ c.prio = b.prio ∧
        (isCur name cur b < isCur name cur c ∨ isCur name cur b = isCur name cur c ∧
          c.devname.map toNat < b.devname.map toNat) := by
      simp [rank, Prod.Lex.toLex_lt_toLex, @eq_comm _ b.prio]
    have hsame (hc : isCur name cur c = true) (hb : isCur name cur b = true) :=
      congrArg (List.map toNat) (devname_of_isCur hc hb)
    rw [takeClaim]
    refine if_congr (.trans ?_ hlt.symm) rfl rfl
    cases hc : isCur name cur c <;> cases hb : isCur name cur b <;> simp_all [strcmpLt]

/-- The claim that the link is to point to. -/
structure Wins (name : Bytes) (claims : List Claim) (place : Entry) (c : Claim) : Prop where
  mem : c ∈ claims
  top : ∀ d ∈ claims, d.prio ≤ c.prio
  keeps : ∀ d ∈ claims, d.prio = c.prio → place = .link (linkTo name d.devname) →
    d.devname = c.devname
  least : (∀ d ∈ claims, d.prio = c.prio → place ≠ .link (linkTo name d.devname)) →
    ∀ d ∈ claims, d.prio = c.prio → strcmpLt d.devname c.devname = false

/-- `readlink` has room for the target. -/
def Entry.Whole : Entry → Prop
  | .link target => target.length < targetMax
  | _ => True

theorem Entry.Whole.read_eq (h : place.Whole) (hcur : cur ≠ []) :
    place.read = cur ↔ place = .link cur := by
  cases place with
  | absent => simp [Entry.read, hcur.symm]
  | node => simp [Entry.read, hcur.symm]
  | link target =>
    have hwhole : target.take (targetMax - 1) = target :=
      take_of_length_le (Nat.le_sub_one_of_lt h)
    simp [Entry.read, hwhole]

theorem linkTo_ne_nil (name : Bytes) (c : Claim) : linkTo name c.devname ≠ [] := by
  simp [linkTo, c.named]

theorem Entry.Whole.isCur_iff (h : place.Whole)
    (hfits : (ruleLinkTarget name c.devname).isSome = true) :
    isCur name place.read c = true ↔ place = .link (linkTo name c.devname) := by
  obtain ⟨target, htarget⟩ := isSome_iff_exists.mp hfits
  obtain ⟨rfl, -⟩ := ruleLinkTarget_some htarget
  rw [isCur, htarget, decide_eq_true_eq, some.injEq, eq_comm, h.read_eq (linkTo_ne_nil name c)]

theorem wins_of_argmax (h : place.Whole) (hfits : Fits name claims)
    (hc : c ∈ claims.argmax (rank name place.read)) : Wins name claims place c := by
  have hmem := argmax_mem hc
  have hle : ∀ d ∈ claims, d.prio < c.prio ∨ d.prio = c.prio ∧
      (isCur name place.read d < isCur name place.read c ∨
        isCur name place.read d = isCur name place.read c ∧
        c.devname.map toNat ≤ d.devname.map toNat) := by
    intro d hd
    simpa [rank, Prod.Lex.toLex_le_toLex] using le_of_mem_argmax hd hc
  refine ⟨hmem, fun d hd => ?_, fun d hd hprio hcur => ?_, fun hnone d hd hprio => ?_⟩
  · rcases hle d hd with hlt | ⟨heq, -⟩ <;> omega
  · have hcd := (h.isCur_iff (hfits d hd).2).mpr hcur
    have hcc : isCur name place.read c = true := by
      rcases hle d hd with hlt | ⟨-, hlt | ⟨heq, -⟩⟩
      · omega
      · exact absurd hlt (by simp [hcd])
      · rw [← heq, hcd]
    exact devname_of_isCur hcd hcc
  · have hcc : ¬ isCur name place.read c = true := fun hcur =>
      hnone c hmem rfl ((h.isCur_iff (hfits c hmem).2).mp hcur)
    rcases hle d hd with hlt | ⟨-, hlt | ⟨-, hname⟩⟩
    · omega
    · exact absurd hlt (by simp [hcc])
    · simpa [strcmpLt] using hname

theorem devname_of_rank (h : rank name cur c = rank name cur d) : c.devname = d.devname := by
  have hname : c.devname.map toNat = d.devname.map toNat :=
    congrArg (fun r : Int ×ₗ Bool ×ₗ (List Nat)ᵒᵈ => OrderDual.ofDual (ofLex (ofLex r).2).2) h
  exact map_injective_iff.mpr (fun a b => UInt8.toNat.inj) hname

theorem Room.set_some (hroom : Room site name) (h : place.Whole) (hnode : place ≠ .node)
    (hfits : (ruleLinkTarget name c.devname).isSome = true) :
    ruleLinkSet site name (some c.devname) place = .link (linkTo name c.devname) := by
  obtain ⟨target, htarget⟩ := isSome_iff_exists.mp hfits
  obtain ⟨rfl, -⟩ := ruleLinkTarget_some htarget
  rw [ruleLinkSet, if_neg (not_or.mpr ⟨not_le.mpr hroom.path, hnode⟩)]
  simp only [htarget, h.read_eq (linkTo_ne_nil name c), if_neg (not_lt.mpr hroom.temp)]
  split
  next hthere => exact hthere.2
  · rfl

/-- While names and targets have room, `rule_link_resolve` gives the link to the claimant of
the greatest priority, whatever the order of the claims: among several to the one it
points to already, or else to the smallest name.  A second run changes nothing. -/
theorem link_resolved (hroom : Room site name) (hwhole : place.Whole) (hnode : place ≠ .node)
    (hfits : Fits name claims) :
    ∃ after,
      (claims = [] ∧ after = .absent ∨
        ∃ c, Wins name claims place c ∧ after = .link (linkTo name c.devname)) ∧
      ∀ l, l.Perm claims →
        ruleLinkResolve site name l place = after ∧ ruleLinkResolve site name l after = after := by
  have hfitsl : ∀ l, l.Perm claims → Fits name l := fun l hl c hc => hfits c (hl.mem_iff.mp hc)
  cases hbest : claims.argmax (rank name place.read) with
  | none =>
    obtain rfl := argmax_eq_none.mp hbest
    refine ⟨.absent, .inl ⟨rfl, rfl⟩, fun l hl => ?_⟩
    obtain rfl := hl.eq_nil
    rw [hroom.resolve_eq hfits, hroom.resolve_eq hfits]
    have hpath := not_le.mpr hroom.path
    exact ⟨if_neg (not_or.mpr ⟨hpath, hnode⟩), if_neg (not_or.mpr ⟨hpath, by simp⟩)⟩
  | some c =>
    have hwins := wins_of_argmax hwhole hfits hbest
    refine ⟨_, .inr ⟨c, hwins, rfl⟩, fun l hl => ?_⟩
    have hmem := hl.mem_iff.mpr hwins.mem
    have hfirst : ∀ p : Entry, p.Whole → p ≠ .node →
        (∀ b ∈ l.argmax (rank name p.read), b.devname = c.devname) →
        ruleLinkResolve site name l p = .link (linkTo name c.devname) := by
      intro p hp hpn hsame
      rw [hroom.resolve_eq (hfitsl l hl), foldl_takeClaim]
      cases hb : l.argmax (rank name p.read) with
      | none => exact absurd hmem (by simp [argmax_eq_none.mp hb])
      | some b =>
        rw [map_some, hsame b hb]
        exact hroom.set_some hp hpn (hfits c hwins.mem).2
    obtain ⟨target, htarget⟩ := isSome_iff_exists.mp (hfits c hwins.mem).2
    obtain ⟨rfl, hlen⟩ := ruleLinkTarget_some htarget
    refine ⟨hfirst place hwhole hnode fun b hb => ?_, hfirst _ hlen (by simp) fun b hb => ?_⟩
    · refine devname_of_rank (le_antisymm ?_ (le_of_mem_argmax hmem hb))
      exact le_of_mem_argmax (hl.mem_iff.mp (argmax_mem hb)) hbest
    · -- the link points to the winner now, and to no other of its priority
      have hagain : Wins name l (.link (linkTo name c.devname)) b :=
        wins_of_argmax hlen (hfitsl l hl) hb
      refine (hagain.keeps c hmem ?_ rfl).symm
      exact le_antisymm (hagain.top c hmem) (hwins.top b (hl.mem_iff.mp hagain.mem))

/-- The directories of the daemon, for a process 7. -/
def devSite : Site := ⟨cstr "/dev", cstr "/run/schema-udev-links", cstr "7"⟩

theorem link_resolved_tie :
    ∃ after,
      (∃ c, Wins (cstr "disk/a")
          [⟨1, cstr "sdb", by decide⟩, ⟨1, cstr "sda", by decide⟩] .absent c ∧
        after = .link (linkTo (cstr "disk/a") c.devname)) ∧
      ruleLinkResolve devSite (cstr "disk/a")
        [⟨1, cstr "sdb", by decide⟩, ⟨1, cstr "sda", by decide⟩] .absent = after := by
  have hroom : Room devSite (cstr "disk/a") := ⟨by decide, by decide, by decide, by decide⟩
  obtain ⟨after, hafter | hafter, hall⟩ := @link_resolved _ _
    [⟨1, cstr "sdb", by decide⟩, ⟨1, cstr "sda", by decide⟩] .absent hroom trivial (by simp)
    (by rw [Fits]; decide)
  · exact absurd hafter.1 (by simp)
  · exact ⟨after, hafter, (hall _ (Perm.refl _)).1⟩

/-- A link below forty directories and a device name of 480 bytes: the target does not fit,
and nothing is done. -/
theorem link_not_moved :
    ruleLinkResolve devSite ((replicate 40 (cstr "a/")).flatten ++ cstr "a")
      [⟨0, (replicate 239 (cstr "b/")).flatten ++ cstr "bb",
        append_ne_nil_of_right_ne_nil _ (by decide)⟩] .absent = .absent := by
  decide +kernel

/-! ## Where a link leads -/

/-- The components of a path, the empty ones too. -/
def comps : Bytes → List Bytes
  | [] => [[]]
  | b :: path =>
    if b = ch '/' then [] :: comps path
    else
      match comps path with
      | [] => [[b]]
      | c :: cs => (b :: c) :: cs

/-- The components that count. -/
def parts (path : Bytes) : List Bytes := (comps path).filter (· ≠ [])

/-- No component is `.` or `..`. -/
def dotless (path : Bytes) : Bool := (comps path).all fun c => c ≠ cstr "." && c ≠ cstr ".."

/-- `rule_link_name_ok`. -/
def ruleLinkNameOk (name : Bytes) : Bool :=
  name ≠ [] && name.head? ≠ some (ch '/') && dotless name && (comps name).all (· ≠ [])

/-- One step of lexical path resolution. -/
def walk (dir : List Bytes) (c : Bytes) : List Bytes :=
  if c = cstr "." then dir else if c = cstr ".." then dir.dropLast else dir ++ [c]

/-- Lexical path resolution from a directory. -/
def resolve (dir : List Bytes) (path : Bytes) : List Bytes :=
  (parts path).foldl walk (if path.head? = some (ch '/') then [] else dir)

theorem length_comps (path : Bytes) : (comps path).length = path.count (ch '/') + 1 := by
  induction path with
  | nil => rfl
  | cons b path ih =>
    rw [comps]
    by_cases hb : b = ch '/'
    · rw [if_pos hb, hb, length_cons, ih, count_cons_self]
    · rw [if_neg hb, count_cons_of_ne hb]
      cases hc : comps path with
      | nil => simp [hc] at ih
      | cons c cs => simpa [hc] using ih

theorem foldl_walk (dir : List Bytes) {cs : List Bytes}
    (h : (cs.all fun c => c ≠ cstr "." && c ≠ cstr "..") = true) :
    cs.foldl walk dir = dir ++ cs := by
  induction cs generalizing dir with
  | nil => simp
  | cons c cs ih =>
    simp only [all_cons, Bool.and_eq_true, decide_eq_true_eq] at h
    rw [foldl_cons, walk, if_neg h.1.1, if_neg h.1.2, ih _ h.2, append_assoc]
    rfl

theorem resolve_dotless (dir : List Bytes) {path : Bytes} (hrel : path.head? ≠ some (ch '/'))
    (h : dotless path = true) : resolve dir path = dir ++ parts path := by
  rw [resolve, if_neg hrel]
  refine foldl_walk dir (all_eq_true.mpr fun c hc => ?_)
  exact all_eq_true.mp h c (mem_of_mem_filter hc)

theorem resolve_ups (dir : List Bytes) {up : List Bytes} {path : Bytes}
    (hrel : path.head? ≠ some (ch '/')) :
    resolve (dir ++ up) (ups up.length ++ path) = resolve dir path := by
  induction up using List.reverseRecOn with
  | nil => simp [ups]
  | append_singleton up c ih =>
    have hsplit : ups (up ++ [c]).length ++ path = cstr "../" ++ (ups up.length ++ path) := by
      rw [length_append, length_singleton, ups, replicate_succ, flatten_cons, append_assoc, ups]
    have hhead : (ups up.length ++ path).head? ≠ some (ch '/') := by
      cases hn : up.length with
      | zero => simpa [ups] using hrel
      | succ n => simp [ups, cstr, ch]
    have hparts : parts (cstr "../" ++ (ups up.length ++ path)) =
        cstr ".." :: parts (ups up.length ++ path) := rfl
    rw [← ih, hsplit, resolve, resolve, hparts, if_neg hhead, foldl_cons, ← append_assoc]
    simp [walk, cstr, ch]

/-! ## `dl_link_one` -/

/-- The count of `dl_link_one` over `base_dir`. -/
def dlUps : Bytes → Nat
  | b :: c :: path => (if b = ch '/' ∧ c ≠ ch '/' then 1 else 0) + dlUps (c :: path)
  | _ => 0

/-- Its loop that fills `prefix[128]`. -/
def dlPrefix : Nat → Bytes → Bytes
  | 0, out => out
  | u + 1, out => if out.length + 3 < 128 then dlPrefix u (out ++ cstr "../") else out

/-- The target that `dl_link_one` writes; `none` is its -1. -/
def dlLinkOne (base tree name devname pid : Bytes) : Option Bytes :=
  let treedir := base ++ ch '/' :: tree
  let target := dlPrefix (dlUps base) [] ++ devname
  if treedir.length ≥ 768 then none
  else if target.length ≥ targetMax then none
  else if (treedir ++ ch '/' :: name).length ≥ 1024 then none
  else if (treedir ++ cstr "/." ++ name ++ cstr ".tmp." ++ pid).length ≥ 1024 then none
  else some target

/-- The absolute path of components. -/
def pathOf (cs : List Bytes) : Bytes := cs.flatMap (ch '/' :: ·)

/-- A plain component: a name, not a path and not a step. -/
structure Plain (c : Bytes) : Prop where
  ne_nil : c ≠ []
  flat : ch '/' ∉ c
  no_dot : c ≠ cstr "."
  no_dots : c ≠ cstr ".."

theorem comps_pathOf {c : Bytes} {cs : List Bytes} (hc : ch '/' ∉ c) (hcs : ∀ d ∈ cs, Plain d) :
    comps (c ++ pathOf cs) = c :: cs := by
  induction cs generalizing c with
  | nil =>
    rw [pathOf, flatMap_nil, append_nil]
    induction c with
    | nil => rfl
    | cons b c ih =>
      rw [mem_cons, not_or] at hc
      rw [comps, if_neg (Ne.symm hc.1), ih hc.2]
  | cons d cs ih =>
    obtain ⟨hd, hcs⟩ := forall_mem_cons.mp hcs
    induction c with
    | nil =>
      rw [pathOf, flatMap_cons, ← pathOf, nil_append, cons_append, comps, if_pos rfl, ih hd.flat hcs]
    | cons b c ihc =>
      rw [mem_cons, not_or] at hc
      rw [cons_append, comps, if_neg (Ne.symm hc.1), ihc hc.2]

theorem resolve_pathOf {cs : List Bytes} (h : ∀ c ∈ cs, Plain c) : resolve [] (pathOf cs) = cs := by
  have hcomps : comps (pathOf cs) = [] :: cs := comps_pathOf not_mem_nil h
  have hparts : parts (pathOf cs) = cs := by
    rw [parts, hcomps, filter_cons_of_neg (by simp), filter_eq_self]
    exact fun c hc => decide_eq_true (h c hc).ne_nil
  rw [resolve, hparts, ite_self, foldl_walk, nil_append]
  exact all_eq_true.mpr fun c hc => by simp [(h c hc).no_dot, (h c hc).no_dots]

theorem dlUps_append {c : Bytes} (hc : ch '/' ∉ c) (path : Bytes) :
    dlUps (c ++ path) = dlUps path := by
  induction c with
  | nil => rfl
  | cons b c ih =>
    rw [mem_cons, not_or] at hc
    rw [← ih hc.2, cons_append]
    cases c ++ path with
    | nil => rfl
    | cons d tail => rw [dlUps, if_neg (fun h => hc.1 h.1.symm), Nat.zero_add]

theorem dlUps_pathOf {cs : List Bytes} (h : ∀ c ∈ cs, Plain c) : dlUps (pathOf cs) = cs.length := by
  induction cs with
  | nil => rfl
  | cons c cs ih =>
    obtain ⟨hc, hcs⟩ := forall_mem_cons.mp h
    have htail : dlUps (c ++ pathOf cs) = cs.length := (dlUps_append hc.flat _).trans (ih hcs)
    obtain ⟨b, tail, rfl⟩ := exists_cons_of_ne_nil hc.ne_nil
    have hb : b ≠ ch '/' := fun heq => hc.flat (heq ▸ mem_cons_self)
    rw [pathOf, flatMap_cons, ← pathOf, cons_append, cons_append, dlUps, if_pos ⟨rfl, hb⟩,
      ← cons_append, htail, length_cons, Nat.add_comm]

theorem dlPrefix_eq (u n : Nat) (hn : n ≤ 42) : dlPrefix u (ups n) = ups (min (n + u) 42) := by
  induction u generalizing n with
  | zero => rw [dlPrefix, Nat.add_zero, Nat.min_eq_left hn]
  | succ u ih =>
    rw [dlPrefix, length_ups, ups_succ]
    by_cases hroom : 3 * n + 3 < 128
    · rw [if_pos hroom, ih _ (by omega)]
      congr 1
      omega
    · rw [if_neg hroom]
      congr 1
      omega

theorem plain_dev {cs : List Bytes} (hcs : ∀ c ∈ cs, Plain c) : ∀ c ∈ cstr "dev" :: cs, Plain c :=
  forall_mem_cons.mpr ⟨⟨by decide, by decide, by decide, by decide⟩, hcs⟩

theorem resolve_dlLinkOne {cs : List Bytes} {tree file devname pid target : Bytes}
    (hrel : devname.head? ≠ some (ch '/')) (hcs : ∀ c ∈ cs, Plain c)
    (h : dlLinkOne (pathOf (cstr "dev" :: cs)) tree file devname pid = some target) :
    resolve (cstr "dev" :: cs ++ [tree]) target =
      resolve ((cstr "dev" :: cs ++ [tree]).take (cs.length + 2 - min (cs.length + 1) 42))
        devname := by
  have hups : dlUps (pathOf (cstr "dev" :: cs)) = cs.length + 1 := dlUps_pathOf (plain_dev hcs)
  have htarget : target = ups (min (cs.length + 1) 42) ++ devname := by
    have hprefix := dlPrefix_eq (cs.length + 1) 0 (Nat.zero_le _)
    rw [Nat.zero_add, show ups 0 = [] from rfl] at hprefix
    simp only [dlLinkOne, hups, hprefix] at h
    split_ifs at h
    exact (some.inj h).symm
  generalize hdir : cstr "dev" :: cs ++ [tree] = dir
  have hdrop : (dir.drop (cs.length + 2 - min (cs.length + 1) 42)).length =
      min (cs.length + 1) 42 := by
    simp only [← hdir, length_drop, length_append, length_cons, length_nil]
    omega
  rw [htarget, ← resolve_ups _ hrel, hdrop, take_append_drop]

/-- The links of rules stay below the root and lead to the device.  Those of `dl_link_one`,
read from the directory that `base_dir/tree` names, lead there exactly if its prefix has
room for the steps up: `/dev` and 41 components. -/
theorem links_lead_to_device {devname : Bytes} (hrel : devname.head? ≠ some (ch '/'))
    (hdots : dotless devname = true) :
    (∀ root name, ruleLinkNameOk name = true →
      (∃ c below, resolve root name = root ++ c :: below) ∧
      ∀ target, ruleLinkTarget name devname = some target →
        resolve (root ++ (comps name).dropLast) target = root ++ parts devname) ∧
    ∀ cs tree file pid target, (∀ c ∈ cs, Plain c) → Plain tree →
      dlLinkOne (pathOf (cstr "dev" :: cs)) tree file devname pid = some target →
        (resolve (resolve [] (pathOf (cstr "dev" :: cs) ++ ch '/' :: tree)) target =
          cstr "dev" :: parts devname ↔ cs.length ≤ 41) := by
  refine ⟨fun root name hname => ⟨?_, fun target htarget => ?_⟩,
    fun cs tree file pid target hcs htree hlink => ?_⟩
  · simp only [ruleLinkNameOk, Bool.and_eq_true, decide_eq_true_eq] at hname
    have hparts : parts name = comps name := filter_eq_self.mpr (by simpa using hname.2)
    have hsome : 0 < (comps name).length := by rw [length_comps]; omega
    obtain ⟨c, below, hc⟩ := exists_cons_of_length_pos hsome
    exact ⟨c, below, by rw [resolve_dotless root hname.1.1.2 hname.1.2, hparts, hc]⟩
  · have hlen : (comps name).dropLast.length = name.count (ch '/') := by
      rw [length_dropLast, length_comps, Nat.add_sub_cancel]
    rw [(ruleLinkTarget_some htarget).1, linkTo, ← hlen, resolve_ups root hrel,
      resolve_dotless root hrel hdots]
  · have hpath : pathOf (cstr "dev" :: cs) ++ ch '/' :: tree =
        pathOf (cstr "dev" :: cs ++ [tree]) := by
      simp [pathOf]
    have hplain : ∀ c ∈ cs ++ [tree], Plain c := forall_mem_append.mpr ⟨hcs, by simpa using htree⟩
    rw [hpath, cons_append, resolve_pathOf (plain_dev hplain), ← cons_append, resolve_dlLinkOne hrel hcs hlink,
      resolve_dotless _ hrel hdots]
    constructor
    · intro heq
      have hcount := congrArg List.length heq
      simp only [length_append, length_take, length_cons, length_nil] at hcount
      omega
    · intro hfew
      rw [show cs.length + 2 - min (cs.length + 1) 42 = 1 by omega]
      rfl

theorem links_lead_to_device_disk :
    resolve [cstr "dev", cstr "disk"] (cstr "../sda1") = [cstr "dev", cstr "sda1"] ∧
    resolve (resolve [] (cstr "/dev/disk/by-uuid")) (cstr "../../sda1") =
      [cstr "dev", cstr "sda1"] := by
  have h := @links_lead_to_device (cstr "sda1") (by decide) (by decide)
  have hplain : ∀ c ∈ [cstr "disk"], Plain c :=
    forall_mem_singleton.mpr ⟨by decide, by decide, by decide, by decide⟩
  refine ⟨(h.1 [cstr "dev"] (cstr "disk/x") (by decide)).2 _ (by decide), ?_⟩
  exact (h.2 [cstr "disk"] (cstr "by-uuid") (cstr "x") [] _ hplain
    ⟨by decide, by decide, by decide, by decide⟩ (by decide)).mpr (by decide)

/-- Below `/dev` and 42 components the link of a disk ends in the first of them. -/
theorem link_one_level_short :
    (dlLinkOne (pathOf (cstr "dev" :: replicate 42 (cstr "a"))) (cstr "by-uuid") (cstr "x")
      (cstr "sda") (cstr "1")).map
      (resolve (resolve [] (pathOf (cstr "dev" :: replicate 42 (cstr "a")) ++ cstr "/by-uuid"))) =
    some [cstr "dev", cstr "a", cstr "sda"] := by
  decide +kernel

end SchemaInit.Udev
