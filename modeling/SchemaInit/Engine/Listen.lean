/-
# `SchemaInit.Engine.Listen` — the descriptors a service is started with

A service gets its listening sockets and what it has put into the fd store at 3, 4, 5
and so on (`sd_listen_fds`).  Any of these numbers may be in use in the child, by
another of the very descriptors to be placed.  So `fdstore_place_fds` first copies them
all to numbers above the range, with the soft limit out of the way, and then moves the
copies down: `place_fds_exact`.

The names go into one variable with colons between them.  A stored name has no colon,
but nothing keeps one out of the name of a service: `listen_names_iff`.
-/
import SchemaInit.Lib.FdTable
import SchemaInit.Engine.Notify

universe u

namespace SchemaInit.Engine

open List

variable {α : Type u}

/-! ## Placing descriptors -/

/-- The descriptors of the child and its `NOFILE` limits; one that was opened earlier
may lie above the soft limit. -/
structure Child (α : Type u) where
  fd : Int → Option α
  soft : Nat
  hard : Nat

/-- What the C library and the kernel grant: the calls that may fail for want of memory, and
the `i`-th call of each loop. -/
structure Grants where
  malloc : Bool
  getrlimit : Bool
  setrlimit : Bool
  dupfd : Nat → Bool
  dup2 : Nat → Bool

namespace Child

def set (p : Child α) (n : Int) (a : Option α) : Child α :=
  { p with fd := Function.update p.fd n a }

def dupfd (p : Child α) (ok : Bool) (s : Int) (min : Nat) : Option (Nat × Child α) :=
  match ok, p.fd s, FdTable.lowestFree p.fd (p.soft - min) min with
  | true, some a, some t => some (t, p.set t (some a))
  | _, _, _ => none

def dup2 (p : Child α) (ok : Bool) (t n : Nat) : Option (Child α) :=
  match p.fd t with
  | some a => if ok ∧ n < p.soft then some (p.set n (some a)) else none
  | none => none

end Child

def dupAll (g : Grants) (min : Nat) : Nat → List Int → Child α → Bool × List Nat × Child α
  | _, [], p => (true, [], p)
  | i, s :: src, p =>
    match p.dupfd (g.dupfd i) s min with
    | none => (false, [], p)
    | some (t, p) =>
      let (ok, made, p) := dupAll g min (i + 1) src p
      (ok, t :: made, p)

def dup2All (g : Grants) : Nat → List Nat → Child α → Bool × Child α
  | _, [], p => (true, p)
  | i, t :: made, p =>
    match p.dup2 (g.dup2 i) t (3 + i) with
    | none => (false, p)
    | some p => dup2All g (i + 1) made p

def closeAll (made : List Nat) (p : Child α) : Child α :=
  made.foldl (fun p t => p.set t none) p

def rlimInfinity : Nat := 2 ^ 64 - 1

def fdstorePlaceFds (g : Grants) (src : List Int) (p : Child α) : Bool × Child α :=
  let n := src.length
  if !g.malloc || !g.getrlimit || (p.hard ≠ rlimInfinity && p.hard < n * 2 + 3 + 16) ||
      (p.soft ≠ p.hard && !g.setrlimit) then (false, p)
  else
    let (copied, made, q) := dupAll g (3 + n) 0 src { p with soft := p.hard }
    let (ok, q) := if copied then dup2All g 0 made q else (false, q)
    (ok, { closeAll made q with soft := p.soft })

theorem Child.dupfd_some {p q : Child α} {ok : Bool} {s : Int} {min t : Nat} (h : p.dupfd ok s min = some (t, q)) :
    p.fd t = none ∧ min ≤ t ∧ q = p.set t (p.fd s) := by
  unfold dupfd at h
  split at h
  next a t' ha ht =>
    obtain ⟨rfl, rfl⟩ := Prod.mk.inj (Option.some.inj h)
    obtain ⟨hfree, hle, -⟩ := FdTable.lowestFree_spec ht
    exact ⟨hfree, hle, by rw [ha]⟩
  next => cases h

theorem Child.dup2_some {p q : Child α} {ok : Bool} {t n : Nat} (h : p.dup2 ok t n = some q) :
    q = p.set n (p.fd t) := by
  unfold dup2 at h
  split at h
  next a ha =>
    rw [ha]
    split at h
    · exact (Option.some.inj h).symm
    · cases h
  next => cases h

theorem dupAll_spec (g : Grants) (min : Nat) {src : List Int} :
    ∀ {i : Nat} {p q : Child α} {ok : Bool} {made : List Nat},
    (∀ s ∈ src, (p.fd s).isSome) → dupAll g min i src p = (ok, made, q) →
    (∀ t ∈ made, min ≤ t ∧ p.fd t = none) ∧ (∀ x : Int, (∀ t ∈ made, x ≠ (t : Int)) → q.fd x = p.fd x) ∧
      (ok = true → made.map (fun t : Nat => q.fd t) = src.map p.fd) := by
  induction src with
  | nil =>
    intro i p q ok made _ h
    obtain ⟨rfl, rfl, rfl⟩ : true = ok ∧ [] = made ∧ p = q := by simpa [dupAll] using h
    simp
  | cons s src ih =>
    intro i p q ok made hopen h
    rw [dupAll] at h
    split at h
    next =>
      obtain ⟨rfl, rfl, rfl⟩ : false = ok ∧ [] = made ∧ p = q := by simpa using h
      simp
    next t p₁ hdup =>
      obtain ⟨hfree, hle, rfl⟩ := Child.dupfd_some hdup
      generalize hrest : dupAll g min (i + 1) src (p.set t (p.fd s)) = r at h
      obtain ⟨ok', made', q'⟩ := r
      obtain ⟨rfl, rfl, rfl⟩ : ok' = ok ∧ t :: made' = made ∧ q' = q := by simpa using h
      have hsame : ∀ x : Int, x ≠ t → (p.set t (p.fd s)).fd x = p.fd x := fun x hx => Function.update_of_ne hx ..
      -- a source is open and the copy's number was free
      have hsrc : ∀ x ∈ s :: src, (p.set t (p.fd s)).fd x = p.fd x := by
        intro x hx
        refine hsame x ?_
        rintro rfl
        simpa [hfree] using hopen _ hx
      obtain ⟨hmade, hframe, hmap⟩ := ih (fun x hx => by
        rw [hsrc x (mem_cons_of_mem _ hx)]
        exact hopen x (mem_cons_of_mem _ hx)) hrest
      have hset : (p.set t (p.fd s)).fd t = p.fd s := Function.update_self ..
      have hfresh : ∀ t' ∈ made', (t : Int) ≠ t' := by
        intro t' ht' heq
        have hnone := (hmade t' ht').2
        rw [← heq, hset] at hnone
        simpa [hnone] using hopen s mem_cons_self
      refine ⟨?_, ?_, fun hok => ?_⟩
      · intro t' ht'
        rcases mem_cons.mp ht' with rfl | ht'
        · exact ⟨hle, hfree⟩
        · rw [← hsame t' fun heq => hfresh t' ht' heq.symm]
          exact hmade t' ht'
      · intro x hx
        rw [hframe x fun t' ht' => hx t' (mem_cons_of_mem _ ht'), hsame x (hx t mem_cons_self)]
      · rw [map_cons, map_cons, hmap hok, hframe t hfresh, hset]
        exact congrArg (_ :: ·) (map_congr_left fun x hx => hsrc x (mem_cons_of_mem _ hx))

theorem dup2All_spec (g : Grants) {made : List Nat} : ∀ {i : Nat} {p q : Child α} {ok : Bool},
    (∀ t ∈ made, 3 + i + made.length ≤ t) → dup2All g i made p = (ok, q) →
    (∀ x : Int, x < 3 + i ∨ 3 + i + made.length ≤ x → q.fd x = p.fd x) ∧
      (ok = true → ∀ (j t : Nat), made[j]? = some t → q.fd (3 + i + j) = p.fd t) := by
  induction made with
  | nil =>
    intro i p q ok _ h
    obtain ⟨rfl, rfl⟩ : true = ok ∧ p = q := by simpa [dup2All] using h
    simp
  | cons t made ih =>
    intro i p q ok hbound h
    rw [dup2All] at h
    split at h
    next =>
      obtain ⟨rfl, rfl⟩ : false = ok ∧ p = q := by simpa using h
      simp
    next p₁ hdup =>
      obtain rfl := Child.dup2_some hdup
      have hsame : ∀ x : Int, x ≠ ((3 + i : Nat) : Int) → (p.set (3 + i : Nat) (p.fd t)).fd x = p.fd x :=
        fun x hx => Function.update_of_ne hx ..
      simp only [length_cons, forall_mem_cons] at hbound ⊢
      obtain ⟨hframe, hmoved⟩ := ih (fun t' ht' => by have := hbound.2 t' ht'; omega) h
      refine ⟨fun x hx => ?_, fun hok j t' hj => ?_⟩
      · rw [hframe x (by push_cast; omega), hsame x (by push_cast; omega)]
      · cases j with
        | zero =>
          obtain rfl : t = t' := by simpa using hj
          rw [hframe _ (by push_cast; omega)]
          exact Function.update_self ..
        | succ j =>
          rw [getElem?_cons_succ] at hj
          have hle := hbound.2 t' (mem_of_getElem? hj)
          rw [← hsame t' (by omega), ← hmoved hok j t' hj]
          congr 1
          push_cast
          omega

theorem fd_closeAll (made : List Nat) (p : Child α) (x : Int) :
    ((∀ t ∈ made, x ≠ (t : Int)) → (closeAll made p).fd x = p.fd x) ∧
      (∀ t ∈ made, x = (t : Int) → (closeAll made p).fd x = none) := by
  induction made generalizing p with
  | nil => simp [closeAll]
  | cons t made ih =>
    obtain ⟨hother, hclosed⟩ := ih (p.set t none)
    refine ⟨fun hx => ?_, fun t' ht' heq => ?_⟩
    · exact (hother fun t' ht' => hx t' (mem_cons_of_mem _ ht')).trans (Function.update_of_ne (hx t mem_cons_self) ..)
    · by_cases hin : ∃ t ∈ made, x = (t : Int)
      · obtain ⟨t, ht, hxt⟩ := hin
        exact hclosed t ht hxt
      · push Not at hin
        obtain rfl : t' = t := (mem_cons.mp ht').resolve_right fun h => hin t' h heq
        exact (hother hin).trans (heq ▸ Function.update_self ..)

theorem soft_placeFds (g : Grants) (src : List Int) (p : Child α) : (fdstorePlaceFds g src p).2.soft = p.soft := by
  unfold fdstorePlaceFds
  dsimp only
  split
  · rfl
  · rfl

theorem placeFds_true (g : Grants) {src : List Int} {p q : Child α} (hopen : ∀ s ∈ src, (p.fd s).isSome)
    (h : fdstorePlaceFds g src p = (true, q)) :
    (∀ (i : Nat) s, src[i]? = some s → q.fd (3 + i) = p.fd s) ∧ ∀ x : Int, 3 + src.length ≤ x → q.fd x = p.fd x := by
  unfold fdstorePlaceFds at h
  dsimp only at h
  split at h
  next => cases h
  next =>
    generalize hcopies : dupAll g (3 + src.length) 0 src { p with soft := p.hard } = r at h
    obtain ⟨copied, made, p₁⟩ := r
    obtain ⟨hmade, hframe, hmap⟩ := dupAll_spec (p := { p with soft := p.hard }) g _ hopen hcopies
    cases copied with
    | false => cases h
    | true =>
      have hlen : made.length = src.length := by simpa using congrArg List.length (hmap rfl)
      simp only [if_true] at h
      generalize hmoves : dup2All g 0 made p₁ = r at h
      obtain ⟨ok, p₂⟩ := r
      obtain ⟨hok, rfl⟩ := Prod.mk.inj h
      obtain ⟨hkeep, hmoved⟩ := dup2All_spec g (fun t ht => by rw [hlen]; exact (hmade t ht).1) hmoves
      refine ⟨fun i s hi => ?_, fun x hx => ?_⟩
      · have hlt : i < src.length := (List.getElem?_eq_some_iff.mp hi).1
        obtain ⟨t, ht⟩ : ∃ t, made[i]? = some t := ⟨made[i], getElem?_eq_getElem (hlen ▸ hlt)⟩
        have hcopy : p₁.fd t = p.fd s := by
          have hget := congrArg (·[i]?) (hmap rfl)
          simpa [ht, hi] using hget
        have hbelow : ∀ t ∈ made, (3 + i : Int) ≠ t := fun t ht => by have := (hmade t ht).1; omega
        rw [← hcopy, ← hmoved hok i t ht]
        simpa using (fd_closeAll made p₂ (3 + i)).1 hbelow
      · by_cases hin : ∃ t ∈ made, x = (t : Int)
        · obtain ⟨t, ht, rfl⟩ := hin
          exact ((fd_closeAll made p₂ t).2 t ht rfl).trans (hmade t ht).2.symm
        · push Not at hin
          exact ((fd_closeAll made p₂ x).1 hin).trans ((hkeep x (.inr (by omega))).trans (hframe x hin))

theorem place_fds_exact (g : Grants) {src : List Int} {p q : Child α} {ok : Bool} (hopen : ∀ s ∈ src, (p.fd s).isSome)
    (h : fdstorePlaceFds g src p = (ok, q)) :
    q.soft = p.soft ∧ (ok = true → (∀ (i : Nat) s, src[i]? = some s → q.fd (3 + i) = p.fd s) ∧
      ∀ x : Int, 3 + src.length ≤ x → q.fd x = p.fd x) := by
  refine ⟨?_, ?_⟩
  · have hsoft := soft_placeFds g src p
    rwa [h] at hsoft
  · rintro rfl
    exact placeFds_true g hopen h

def openHanded : Grants := ⟨true, true, true, fun _ => true, fun _ => true⟩
def sixOpen : Child Nat := ⟨fun x => if 0 ≤ x ∧ x ≤ 5 then some x.toNat else none, 8, 64⟩

theorem place_fds_exact_crossed : (fdstorePlaceFds openHanded [4, 3, 4] sixOpen).2.soft = 8 ∧
      (fdstorePlaceFds openHanded [4, 3, 4] sixOpen).2.fd 3 = some 4 :=
  have h := place_fds_exact openHanded (show ∀ s ∈ [4, 3, 4], (sixOpen.fd s).isSome by decide) rfl
  ⟨h.1, (h.2 (by decide)).1 0 4 rfl⟩

/-! ## Naming them -/

def fdstoreCollect (svc : Bytes) (max : Nat) (store : List FdEnt) : List FdEnt :=
  (store.filter fun x => x.svc = svc).take max

def fdnamesLoop (cap : Nat) : List Bytes → (first : Bool) → Bytes → Option Bytes
  | [], _, out => if cap < 1 then none else some out
  | nm :: names, first, out =>
    if out.length + nm.length + (if first then 0 else 1) + 1 > cap then none
    else fdnamesLoop cap names false (out ++ (if first then [] else [ch ':']) ++ nm)

def fdstoreFdnames (svc : Bytes) (listenOpen : Nat) (store : List FdEnt) (cap : Nat) : Option Bytes :=
  fdnamesLoop cap (List.replicate listenOpen ((svc ++ cstr ".socket").take 79) ++
    (store.filter fun x => x.svc = svc).map FdEnt.name) true []

/-- The child before `exec`: its descriptors and its environment, as far as it is set here. -/
structure Passed (α : Type u) where
  child : Child α
  listenFds : Option Bytes
  listenPid : Option Bytes
  listenFdnames : Option Bytes

/-- `svc_pass_listen` for a service with this name and these sockets; `none` is `_exit(126)`. -/
def svcPassListen (g : Grants) (pid : Nat) (name : Bytes) (listenFd : List Int) (store : List FdEnt) (p : Child α) :
    Option (Passed α) :=
  let stored := (store.filter fun x => x.svc = name).length
  if listenFd.length + stored = 0 then some ⟨p, none, none, none⟩
  else if !g.malloc then none
  else
    let src := listenFd ++ (fdstoreCollect name stored store).map FdEnt.fd
    match fdstorePlaceFds g src p with
    | (false, _) => none
    | (true, child) =>
      (fdstoreFdnames name listenFd.length store (src.length * 72 + 1)).map fun names =>
        ⟨child, some (cstr (toString src.length)), some (cstr (toString pid)), some names⟩

inductive Stored : List FdEnt → Prop
  | empty : Stored []
  | add {store} (w : World) (svc name : Bytes) (max fd : Int) : Stored store →
      Stored (fdstoreAdd w svc name max store fd)
  | take {store} (keep : FdEnt → Bool) : Stored store → Stored (store.filter keep)

theorem Stored.valid {store : List FdEnt} (h : Stored store) : ∀ x ∈ store, fdstoreValidName x.name = true := by
  induction h with
  | empty => simp
  | add w svc name max fd _ ih =>
    intro x hx
    unfold fdstoreAdd at hx
    dsimp only at hx
    generalize (if name.isEmpty then cstr "stored" else name) = nm at hx
    split at hx
    next => exact ih x hx
    next hroom =>
      rcases mem_append.mp hx with hx | hx
      · exact ih x hx
      · rw [mem_singleton.mp hx]
        simp only [Bool.or_eq_true, Bool.not_eq_true', not_or, Bool.not_eq_false] at hroom
        exact hroom.1.1.2
  | take keep _ ih => exact fun x hx => ih x (mem_of_mem_filter hx)

theorem colon_of_validName {name : Bytes} (h : fdstoreValidName name = true) : name.length ≤ 63 ∧ ch ':' ∉ name := by
  simp only [fdstoreValidName, Bool.and_eq_true, decide_eq_true_eq, all_eq_true] at h
  exact ⟨h.1.2, fun hmem => absurd (h.2 _ hmem) (by decide)⟩

/-- The descriptors meant for the service, with their names: its sockets, then what it has stored. -/
def meant (name : Bytes) (listenFd : List Int) (store : List FdEnt) : List (Int × Bytes) :=
  listenFd.map (·, name ++ cstr ".socket") ++ (store.filter fun x => x.svc = name).map fun x => (x.fd, x.name)

def splitNames : Option Bytes → List Bytes
  | none => []
  | some names => names.splitOn (ch ':')

/-- What the service is promised: how many there are, what they refer to, and their names. -/
structure Handed (ds : List (Int × Bytes)) (p : Child α) (r : Passed α) : Prop where
  count : r.listenFds = if ds = [] then none else some (cstr (toString ds.length))
  refers : ∀ (i : Nat) d, ds[i]? = some d → r.child.fd (3 + i) = p.fd d.1
  names : splitNames r.listenFdnames = ds.map Prod.snd

theorem fdnamesLoop_room {cap : Nat} : ∀ {names : List Bytes} {out : Bytes}, (∀ nm ∈ names, nm.length ≤ 71) →
    out.length + names.length * 72 + 1 ≤ cap →
    fdnamesLoop cap names false out = some (out ++ names.flatMap (ch ':' :: ·))
  | [], out, _, hcap => by
    have : ¬ cap < 1 := by omega
    simp [fdnamesLoop, this]
  | nm :: names, out, hlen, hcap => by
    have hnm := hlen nm mem_cons_self
    rw [length_cons] at hcap
    rw [fdnamesLoop, if_neg (by simp only [Bool.false_eq_true, if_false]; omega),
      fdnamesLoop_room (fun x hx => hlen x (mem_cons_of_mem _ hx)) (by simp; omega)]
    simp

theorem intercalate_eq_flatMap {x : UInt8} (nm : Bytes) (names : List Bytes) :
    [x].intercalate (nm :: names) = nm ++ names.flatMap (x :: ·) := by
  induction names generalizing nm with
  | nil => simp
  | cons next names ih => simpa [List.intercalate] using ih next

theorem fdnamesLoop_join {names : List Bytes} (hlen : ∀ nm ∈ names, nm.length ≤ 71) (hne : names ≠ []) :
    fdnamesLoop (names.length * 72 + 1) names true [] = some ([ch ':'].intercalate names) := by
  obtain ⟨nm, names, rfl⟩ := exists_cons_of_ne_nil hne
  have hnm := hlen nm mem_cons_self
  rw [fdnamesLoop, if_neg (by simp; omega),
    fdnamesLoop_room (fun x hx => hlen x (mem_cons_of_mem _ hx)) (by simp; omega), intercalate_eq_flatMap]
  simp

theorem not_mem_of_mem_splitOn {x : UInt8} {text : Bytes} : ∀ l ∈ text.splitOn x, x ∉ l := by
  induction text with
  | nil => simp
  | cons b text ih =>
    intro l hl
    rw [List.splitOn, splitOnP_cons_eq_if_modifyHead] at hl
    split at hl
    next =>
      rcases mem_cons.mp hl with rfl | hl
      · exact not_mem_nil
      · exact ih l hl
    next hb =>
      obtain ⟨hd, tl, hsplit⟩ := exists_cons_of_ne_nil (splitOnP_ne_nil (· == x) text)
      rw [hsplit, modifyHead_cons] at hl
      have hall : ∀ l ∈ hd :: tl, x ∉ l := fun l hl => ih l (by rwa [List.splitOn, hsplit])
      rcases mem_cons.mp hl with rfl | hl
      · have hne : x ≠ b := fun heq => hb (by simp [heq])
        simpa [hne] using hall hd mem_cons_self
      · exact hall l (mem_cons_of_mem _ hl)

theorem splitOn_join_iff {names : List Bytes} (hne : names ≠ []) :
    ([ch ':'].intercalate names).splitOn (ch ':') = names ↔ ∀ nm ∈ names, ch ':' ∉ nm :=
  ⟨fun h nm hnm => not_mem_of_mem_splitOn nm (h.symm ▸ hnm), fun h => splitOn_intercalate _ h hne⟩

/-- Where the descriptors can be placed the service is started, and it finds what it is promised
exactly if it has no socket or no colon in its name. -/
theorem listen_names_iff (g : Grants) (pid : Nat) {name : Bytes} {listenFd : List Int}
    {store : List FdEnt} {p : Child α}
    (hname : name.length < 64) (hstore : Stored store) (hopen : ∀ d ∈ meant name listenFd store, (p.fd d.1).isSome)
    (hplace : (fdstorePlaceFds g ((meant name listenFd store).map Prod.fst) p).1 = true) :
    ∃ r, svcPassListen g pid name listenFd store p = some r ∧
      (Handed (meant name listenFd store) p r ↔ listenFd = [] ∨ ch ':' ∉ name) := by
  have hcollect : fdstoreCollect name (store.filter fun x => x.svc = name).length store =
    store.filter fun x => x.svc = name :=
    take_length
  have hsrc : listenFd ++ (store.filter fun x => x.svc = name).map FdEnt.fd =
      (meant name listenFd store).map Prod.fst := by
    simp [meant, Function.comp_def]
  have hcount : listenFd.length + (store.filter fun x => x.svc = name).length = (meant name listenFd store).length := by
    simp [meant]
  have hsocket : (name ++ cstr ".socket").length ≤ 71 := by
    rw [length_append, show (cstr ".socket").length = 7 from rfl]
    omega
  have hnames : List.replicate listenFd.length ((name ++ cstr ".socket").take 79) ++
      (store.filter fun x => x.svc = name).map FdEnt.name = (meant name listenFd store).map Prod.snd := by
    rw [take_of_length_le (by omega)]
    simp [meant, Function.comp_def]
  have hvalid : ∀ nm ∈ (store.filter fun x => x.svc = name).map FdEnt.name, nm.length ≤ 63 ∧ ch ':' ∉ nm := by
    intro nm hnm
    obtain ⟨x, hx, rfl⟩ := mem_map.mp hnm
    exact colon_of_validName (hstore.valid x (mem_of_mem_filter hx))
  -- a colon comes from the name of the service only
  have hcolon : (∀ nm ∈ (meant name listenFd store).map Prod.snd, ch ':' ∉ nm) ↔ listenFd = [] ∨ ch ':' ∉ name := by
    have hsuffix : ch ':' ∉ cstr ".socket" := by decide
    have hlater := fun nm hnm => (hvalid nm hnm).2
    rw [← hnames, take_of_length_le (by omega)]
    cases listenFd with
    | nil => exact iff_of_true hlater (.inl rfl)
    | cons fd fds =>
      rw [length_cons, forall_mem_append, and_iff_left hlater]
      simp [hsuffix]
  have hlen : ∀ nm ∈ (meant name listenFd store).map Prod.snd, nm.length ≤ 71 := by
    intro nm hnm
    rw [← hnames, mem_append] at hnm
    rcases hnm with hnm | hnm
    · rw [eq_of_mem_replicate hnm]
      exact (length_take_le' ..).trans hsocket
    · exact (hvalid nm hnm).1.trans (by omega)
  unfold svcPassListen
  dsimp only
  rw [hcollect, hsrc, hcount]
  generalize hds : meant name listenFd store = ds at *
  split
  next hnil =>
    obtain rfl : ds = [] := eq_nil_of_length_eq_zero hnil
    refine ⟨_, rfl, ⟨fun _ => hcolon.mp (by simp), fun _ => ⟨by simp, by simp, rfl⟩⟩⟩
  next hpos =>
    have hne : ds ≠ [] := fun h => hpos (by simp [h])
    have hmalloc : g.malloc = true := by
      by_contra hno
      rw [Bool.not_eq_true] at hno
      simp [fdstorePlaceFds, hno] at hplace
    obtain ⟨q, hq⟩ : ∃ q, fdstorePlaceFds g (ds.map Prod.fst) p = (true, q) := ⟨_, Prod.ext hplace rfl⟩
    have hjoin := fdnamesLoop_join hlen (by simpa using hne)
    rw [if_neg (show ¬ (!g.malloc) = true by simp [hmalloc]), hq]
    rw [fdstoreFdnames, hnames, length_map]
    rw [length_map] at hjoin
    rw [hjoin]
    refine ⟨_, rfl, ?_⟩
    rw [← hcolon, ← splitOn_join_iff (by simpa using hne)]
    refine ⟨fun h => h.names, fun hsplit => ⟨by simp [hne], fun i d hi => ?_, hsplit⟩⟩
    exact (placeFds_true g (by simpa using fun a b h => hopen (a, b) h) hq).1 i d.1 (by simp [hi])

theorem listen_names_iff_plain : ∃ r, svcPassListen openHanded 7 (cstr "db") [4, 3] [] sixOpen = some r ∧
      (Handed (meant (cstr "db") [4, 3] []) sixOpen r ↔ ([4, 3] : List Int) = [] ∨ ch ':' ∉ cstr "db") :=
  listen_names_iff openHanded 7 (by decide) .empty (by decide) (by decide)

theorem colon_splits_name :
    (svcPassListen openHanded 7 (cstr "a:b") [4] [] sixOpen).map (fun r => splitNames r.listenFdnames) =
      some [cstr "a", cstr "b.socket"] := by
  decide

end SchemaInit.Engine
