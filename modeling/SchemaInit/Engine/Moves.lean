/-
# `SchemaInit.Engine.Moves` — the engine follows the state diagram

`Moves W G K e e'` says that the engine gets from `e` to `e'` by moving services along
arcs, spawning them, working on their cgroups and sockets, and sweeping evictions.  `W`
are the answers of the outside it may have used, `K i k` allows the kind `k` for service
`i`, and `G e i` holds wherever service `i` was spawned.
-/
import SchemaInit.Engine.Arc

namespace SchemaInit.Engine

open Pid1 List
open Service (core)

variable {e e' : Pid1} {i j : Nat} {s : Service} {f : Service → Service}

open Relation

/-! ## Reading the table -/

namespace Pid1

variable (w : World) (b : Bool)

theorem at_eq (h : e.services[i]? = some s) : e.at_ i = s := by
  simp [at_, h]

theorem getElem?_at (hi : i < e.count) : e.services[i]? = some (e.at_ i) := by
  have : i < e.services.length := hi
  simp [at_, this]

@[simp] theorem count_put (e : Pid1) (i : Nat) (s : Service) : (e.put i s).count = e.count := by
  simp [put, count]

@[simp] theorem count_mod (e : Pid1) (i : Nat) (f : Service → Service) : (e.mod i f).count = e.count :=
  count_put e i _

theorem at_put (hi : i < e.count) : (e.put i s).at_ i = s := by
  have : i < e.services.length := hi
  simp [put, at_, this]

theorem at_put_ne (h : i ≠ j) : (e.put i s).at_ j = e.at_ j := by
  simp [put, at_, getElem?_set_ne h]

theorem put_put (e : Pid1) (i : Nat) (s t : Service) : (e.put i s).put i t = e.put i t := by
  simp [put]

theorem put_at (e : Pid1) (i : Nat) : e.put i (e.at_ i) = e := by
  by_cases hi : i < e.services.length
  · have hself : e.services.set i (e.at_ i) = e.services := by
      apply ext_getElem? fun k => ?_
      by_cases hk : i = k
      · subst hk
        simp [at_, hi]
      · rw [getElem?_set_ne hk]
    simp [put, hself]
  · have hself : e.services.set i (e.at_ i) = e.services := set_eq_of_length_le (by omega)
    simp [put, hself]

theorem put_of_le (hi : e.count ≤ i) : e.put i s = e := by
  have hself : e.services.set i s = e.services := set_eq_of_length_le hi
  simp [put, hself]

theorem put_comm (e : Pid1) (s t : Service) (h : i ≠ j) : (e.put i s).put j t = (e.put j t).put i s := by
  simp [put, set_comm _ _ h]

/-! ## What does not touch the table -/

def fixed (e : Pid1) : List Service × List Group × Bytes :=
  (e.services, e.groups, e.cgroupRoot)

@[simp] def spawnOf : Effect → Option (Nat × List Service)
  | .spawn i table => some (i, table)
  | _ => none

/-- The calls of `service_spawn` so far, each with the table it was made on. -/
def spawns (e : Pid1) : List (Nat × List Service) :=
  e.trace.filterMap spawnOf

section
variable (e : Pid1)

@[simp] theorem spawns_put (i : Nat) (s : Service) : (e.put i s).spawns = e.spawns := rfl

@[simp] theorem fixed_emit (k : Effect) : (e.emit k).fixed = e.fixed := rfl

@[simp] theorem spawns_emit (k : Effect) : (e.emit k).spawns = e.spawns ++ (spawnOf k).toList := by
  cases k <;> simp [spawns, emit]

@[simp] abbrev Keeps (e e' : Pid1) : Prop :=
  e'.fixed = e.fixed ∧ e'.spawns = e.spawns

@[simp] theorem keeps_evictionForget (cg : Bytes) : Keeps e (e.evictionForget cg) := ⟨rfl, rfl⟩

@[simp] theorem keeps_cgroupRmdirTree (cg : Bytes) : Keeps e (e.cgroupRmdirTree w cg) := by
  unfold cgroupRmdirTree
  split <;> exact ⟨rfl, rfl⟩

@[simp] theorem keeps_cgroupMkdir (cg : Bytes) : Keeps e (e.cgroupMkdir cg) := by
  unfold cgroupMkdir
  split <;> exact ⟨rfl, rfl⟩

@[simp] theorem keeps_evictionAddAs (pid : Nat) (cg : Bytes) (reaped : Bool) (killed : Nat) (grace : Int) :
    Keeps e (e.evictionAddAs w pid cg reaped killed grace) := by
  unfold evictionAddAs
  split <;> exact ⟨rfl, rfl⟩

@[simp] theorem keeps_killTreeAt (cg : Bytes) : Keeps e (e.killTreeAt w cg) := by
  unfold killTreeAt
  split
  · exact ⟨rfl, rfl⟩
  · dsimp only
    split <;> simp

@[simp] theorem keeps_apply (o : Op) : Keeps e (e.apply w o) := by
  cases o <;> simp [apply]

@[simp] theorem keeps_foldl_apply (l : List Op) (e : Pid1) : Keeps e (l.foldl (apply w) e) := by
  induction l generalizing e with
  | nil => exact ⟨rfl, rfl⟩
  | cons o l ih => simp [ih]

@[simp] theorem keeps_evictionDrop (ev : Eviction) : Keeps e (e.evictionDrop w ev) := by
  unfold evictionDrop
  split <;> simp

theorem keeps_sweepEvictions {f : Pid1 → Eviction → Pid1 × Option Eviction} (hf : ∀ u ev, Keeps u (f u ev).1)
    (e : Pid1) : Keeps e (e.sweepEvictions f) := by
  have h := Sweep.sweep_invariant (P := Keeps e) (Q := fun _ => True)
    (fun u ev hu _ => ⟨⟨(hf u ev).1.trans hu.1, (hf u ev).2.trans hu.2⟩, fun _ _ => trivial⟩)
    (l := e.evictions) ⟨rfl, rfl⟩ (by simp)
  exact h.1

@[simp] theorem keeps_evictionTick : Keeps e (e.evictionTick w) := by
  refine keeps_sweepEvictions (fun u ev => ?_) e
  simp only [evictionDue]
  split_ifs <;> simp

@[simp] theorem keeps_evictionReaped (pid : Nat) (e : Pid1) : Keeps e (e.evictionReaped w pid) := by
  have hsweep : ∀ u : Pid1, Keeps u (u.sweepEvictions (evictionEmptied w)) := by
    refine keeps_sweepEvictions fun u ev => ?_
    simp only [evictionEmptied]
    split <;> simp
  simp only [evictionReaped, Keeps, hsweep]
  split
  · exact ⟨rfl, rfl⟩
  · split
    · exact ⟨rfl, rfl⟩
    · split
      · exact keeps_evictionDrop w e _
      · exact ⟨rfl, rfl⟩

end

theorem apply_put (e : Pid1) (i : Nat) (s : Service) (o : Op) : (e.put i s).apply w o = (e.apply w o).put i s := by
  cases o with
  | signal pid sig => rfl
  | signalGroup pid sig => rfl
  | close fd => rfl
  | killTree cg =>
    simp only [apply, killTreeAt, cgroupRmdirTree, cgroupExists, evictionAddAs, evictionForget, emit, put]
    split_ifs <;> rfl
  | assign cg =>
    simp only [apply, cgroupMkdir, cgroupRmdirTree, cgroupExists, put]
    split_ifs <;> rfl

theorem put_on (s : Service) (f : Loc → Loc) (hi : i < e.count) :
    (e.put i s).on w i f = e.on w i fun _ => f { svc := s } := by
  have hops : ∀ (ops : List Op) (u : Pid1), ops.foldl (apply w) (u.put i s) = (ops.foldl (apply w) u).put i s := by
    intro ops
    induction ops with
    | nil => exact fun _ => rfl
    | cons o ops ih => exact fun u => by rw [foldl_cons, foldl_cons, apply_put, ih]
  dsimp only [on]
  rw [at_put hi, hops, put_put]

@[simp] theorem spawns_setCgroupFreeze (i : Nat) (e : Pid1) : (e.setCgroupFreeze w b i).spawns = e.spawns := by
  unfold setCgroupFreeze
  dsimp only
  split
  · rfl
  · split
    · rfl
    · split
      · rfl
      · split
        · exact (spawns_emit e _).trans (by simp)
        · rfl
      · rfl

theorem setCgroupFreeze_services (i : Nat) (e : Pid1) : (e.setCgroupFreeze w b i).services = e.services ∨
      (e.setCgroupFreeze w b i).services = e.services.set i { e.at_ i with rt.isFrozen := b } := by
  unfold setCgroupFreeze
  dsimp only
  split
  · exact .inl rfl
  · split
    · exact .inl rfl
    · split
      · exact .inr rfl
      · split
        · exact .inr rfl
        · exact .inl rfl
      · exact .inl rfl

@[simp] theorem count_on (i : Nat) (f : Loc → Loc) (e : Pid1) : (e.on w i f).count = e.count := by
  have hfixed := (keeps_foldl_apply w (f { svc := e.at_ i }).ops e).1
  exact (count_put ..).trans (congrArg (fun x : List Service × List Group × Bytes => x.1.length) hfixed)

theorem count_setCgroupFreeze (i : Nat) (e : Pid1) : (e.setCgroupFreeze w b i).count = e.count := by
  rcases setCgroupFreeze_services w b i e with h | h <;> simp [count, h]

theorem services_of_fixed (h : e'.fixed = e.fixed) : e'.services = e.services :=
  congrArg Prod.fst h

theorem count_of_fixed (h : e'.fixed = e.fixed) : e'.count = e.count :=
  congrArg (fun x : List Service × List Group × Bytes => x.1.length) h

theorem at_of_fixed (h : e'.fixed = e.fixed) (i : Nat) : e'.at_ i = e.at_ i :=
  congrArg (fun x : List Service × List Group × Bytes => x.1.getD i default) h

theorem at_mod (hi : i < e.count) : (e.mod i f).at_ i = f (e.at_ i) :=
  at_put hi

theorem at_mod_ne (hne : i ≠ j) : (e.mod i f).at_ j = e.at_ j :=
  at_put_ne hne

theorem at_on (hi : i < e.count) (w : World) (f : Loc → Loc) : (e.on w i f).at_ i = (f { svc := e.at_ i }).svc := by
  rw [on]
  refine at_put ?_
  rw [count_of_fixed (keeps_foldl_apply ..).1]
  exact hi

theorem at_on_ne (h : i ≠ j) (w : World) (f : Loc → Loc) (e : Pid1) : (e.on w i f).at_ j = e.at_ j := by
  rw [on, at_put_ne h]
  exact at_of_fixed (keeps_foldl_apply ..).1 j

theorem root_of_fixed (h : e'.fixed = e.fixed) : e'.cgroupRoot = e.cgroupRoot :=
  congrArg (fun x : List Service × List Group × Bytes => x.2.2) h

def spawnsOf (i : Nat) (e : Pid1) : Nat :=
  e.spawns.countP (·.1 = i)

@[simp] theorem spawnsOf_put (e : Pid1) (i j : Nat) (s : Service) : (e.put j s).spawnsOf i = e.spawnsOf i :=
  rfl

end Pid1

/-! ## Moves -/

def Chain (W : Nat → World → Prop) (K : Kind → Prop) (e : Pid1) (i : Nat) : Service → Service → Prop :=
  ReflTransGen fun s s' => ∃ k, K k ∧ Arc W e i k s s'

theorem Chain.mono {W : Nat → World → Prop} {K K' : Kind → Prop} {s' : Service}
    (h : Chain W K e i s s') (hK : ∀ k, K k → K' k) : Chain W K' e i s s' := by
  induction h with
  | refl => exact .refl
  | tail _ hstep ih =>
    obtain ⟨k, hk, ha⟩ := hstep
    exact ih.tail ⟨k, hK k hk, ha⟩

def OpFor (root : Bytes) (s : Service) : Op → Prop
  | .killTree cg => cg = [] ∨ cg = s.rt.cgroupPath ∨ cg = cgroupPath root s.conf.name
  | .assign cg => cg = cgroupPath root s.conf.name
  | .signal _ _ | .signalGroup _ _ | .close _ => True

def Pid1.spawnCall (i : Nat) (s : Service) (e : Pid1) : Pid1 :=
  let e := (e.put i s).evictionForget (e.cgroupPathFor s.conf.name)
  e.emit (.spawn i e.services)

theorem Pid1.spawnsOf_spawnCall (e : Pid1) (i j : Nat) (s : Service) :
    (e.spawnCall j s).spawnsOf i = if j = i then e.spawnsOf i + 1 else e.spawnsOf i := by
  have hcall : (e.spawnCall j s).spawns = e.spawns ++ [(j, (e.put j s).services)] := spawns_emit _ _
  rw [spawnsOf, hcall, countP_append]
  by_cases hij : j = i
  · simp [hij, spawnsOf]
  · simp [hij, spawnsOf]

structure SameRest (e e' : Pid1) : Prop where
  services : e'.services = e.services
  groups : e'.groups = e.groups
  evictions : e'.evictions = e.evictions
  cgroupRoot : e'.cgroupRoot = e.cgroupRoot
  cgroups : e'.cgroups = e.cgroups
  trace : e'.trace = e.trace

inductive Moves (W : Nat → World → Prop) (G : Pid1 → Nat → Prop) (K : Nat → Kind → Prop) (e : Pid1) : Pid1 → Prop
  | refl : Moves W G K e e
  | chain {e' : Pid1} (h : Moves W G K e e') {i : Nat} {s' : Service} (hi : i < e'.count)
      (hc : Chain W (K i) e' i (e'.at_ i) s') : Moves W G K e (e'.put i s')
  | op {e' : Pid1} (h : Moves W G K e e') {i : Nat} (w : World) {o : Op} (hi : i < e'.count) (hk : K i .op)
      (ho : OpFor e'.cgroupRoot (e'.at_ i) o) : Moves W G K e (e'.apply w o)
  | signal {e' : Pid1} (h : Moves W G K e e') (w : World) (pid : Nat) (sig : Sig) :
      Moves W G K e (e'.apply w (.signal pid sig))
  | spawn {e' : Pid1} (h : Moves W G K e e') {i : Nat} {s' s'' t : Service}
      (w : World) {l : List Op} (hi : i < e'.count)
      (hk : K i .spawn) (hst : (e'.at_ i).rt.inst.state = .newProcess)
      (hs : s'.core = core { e'.at_ i with rt.inst.state := .fullTrust }) (hg : G e' i)
      (harc : SpawnArc e' (e'.at_ i) t) (hq : s''.core = t.core)
      (hl : ∀ o ∈ l, (∃ pid sig, o = .signal pid sig) ∨ OpFor e'.cgroupRoot (e'.at_ i) o) :
      Moves W G K e ((l.foldl (Pid1.apply w) (e'.spawnCall i s')).put i s'')
  | freeze {e' : Pid1} (h : Moves W G K e e') {i : Nat} (w : World) (b : Bool) (hi : i < e'.count) (hk : K i .freeze)
      (hchild : (e'.at_ i).rt.childPid ≠ 0) : Moves W G K e (e'.setCgroupFreeze w b i)
  | rest {e' e'' : Pid1} (h : Moves W G K e e') (hr : SameRest e' e'') : Moves W G K e e''
  | groups {e' : Pid1} (h : Moves W G K e e') (states : List State) :
      Moves W G K e { e' with groups := groupsUpdate e'.groups states }
  | evictionTick {e' : Pid1} (h : Moves W G K e e') (w : World) : Moves W G K e (e'.evictionTick w)
  | evictionReaped {e' : Pid1} (h : Moves W G K e e') (w : World) (pid : Nat) : Moves W G K e (e'.evictionReaped w pid)

abbrev AnyMoves := Moves (fun _ _ => True) fun _ _ => True

namespace Moves

variable {W : Nat → World → Prop} {G : Pid1 → Nat → Prop} {K : Nat → Kind → Prop} {e e' e'' : Pid1}

/-- Moves under narrower conditions, behind moves. -/
theorem extend {G' : Pid1 → Nat → Prop} {K' : Nat → Kind → Prop} (h : Moves W G' K' e e') (h' : Moves W G K e' e'')
    (hG : ∀ u i, G u i → G' u i) (hK : ∀ i k, K i k → K' i k) : Moves W G' K' e e'' := by
  induction h' with
  | refl => exact h
  | chain _ hi hc ih => exact .chain ih hi (hc.mono (hK _))
  | op _ w hi hk ho ih => exact .op ih w hi (hK _ _ hk) ho
  | signal _ w pid sig ih => exact .signal ih w pid sig
  | spawn _ w hi hk hst hs hg harc hq hl ih => exact .spawn ih w hi (hK _ _ hk) hst hs (hG _ _ hg) harc hq hl
  | freeze _ w b hi hk hchild ih => exact .freeze ih w b hi (hK _ _ hk) hchild
  | rest _ hr ih => exact .rest ih hr
  | groups _ states ih => exact .groups ih states
  | evictionTick _ w ih => exact .evictionTick ih w
  | evictionReaped _ w pid ih => exact .evictionReaped ih w pid

theorem trans (h : Moves W G K e e') (h' : Moves W G K e' e'') : Moves W G K e e'' :=
  h.extend h' (fun _ _ => id) fun _ _ => id

theorem mono {G' : Pid1 → Nat → Prop} {K' : Nat → Kind → Prop} (h : Moves W G K e e')
    (hG : ∀ u i, G u i → G' u i) (hK : ∀ i k, K i k → K' i k) : Moves W G' K' e e' :=
  Moves.refl.extend h hG hK

/-! ### Rules -/

theorem count (h : Moves W G K e e') : e'.count = e.count := by
  induction h with
  | refl => rfl
  | chain _ _ _ ih => simpa using ih
  | op _ w _ _ _ ih => rw [count_of_fixed (keeps_apply w _ _).1, ih]
  | signal _ w pid sig ih => exact ih
  | spawn _ w _ _ _ _ _ _ _ _ ih =>
    rw [count_put, count_of_fixed (keeps_foldl_apply w _ _).1]
    exact (count_put ..).trans ih
  | freeze _ w b _ _ _ ih => rw [count_setCgroupFreeze, ih]
  | rest _ hr ih => rw [Pid1.count, hr.services, ← Pid1.count, ih]
  | groups _ _ ih => exact ih
  | evictionTick _ w ih => rw [count_of_fixed (keeps_evictionTick w _).1, ih]
  | evictionReaped _ w pid ih => rw [count_of_fixed (keeps_evictionReaped w pid _).1, ih]

theorem rule {R : Pid1 → Prop} (hR : ∀ u v : Pid1, v.services = u.services → v.spawns = u.spawns → R u → R v)
    (harc : ∀ u j k s s', Moves W G K e u → j < u.count → K j k → Arc W u j k s s' → R (u.put j s) → R (u.put j s'))
    (hspawn : ∀ u j s' s'' t, Moves W G K e u → j < u.count → K j .spawn → (u.at_ j).rt.inst.state = .newProcess →
      core s' = core { u.at_ j with rt.inst.state := .fullTrust } → G u j → SpawnArc u (u.at_ j) t →
      core s'' = t.core → R u → R ((u.spawnCall j s').put j s''))
    (hfreeze : ∀ u j b, Moves W G K e u → j < u.count → K j .freeze → R u →
      R (u.put j { u.at_ j with rt.isFrozen := b }))
    (h : Moves W G K e e') (start : R e) : R e' := by
  induction h with
  | refl => exact start
  | @chain e' hm j s' hj hc ih =>
    -- along the chain, each service on it in the place of the first
    induction hc with
    | refl => exact (put_at e' j).symm ▸ ih
    | tail _ hstep hprev =>
      obtain ⟨k, hk, ha⟩ := hstep
      exact harc e' j k _ _ hm hj hk ha hprev
  | @op e' _ _ w o _ _ _ ih =>
    exact hR e' _ (services_of_fixed (keeps_apply w _ _).1) (keeps_apply w e' o).2 ih
  | @signal e' _ w pid sig ih => exact hR e' _ rfl (keeps_apply w e' _).2 ih
  | @spawn e' hm j s' s'' t w l hj hk hst hs hg harc' hq _ ih =>
    have hcall := hspawn e' j s' s'' t hm hj hk hst hs hg harc' hq ih
    have hserv := services_of_fixed (keeps_foldl_apply w l (e'.spawnCall j s')).1
    exact hR _ _ (by simp [put, hserv]) (by simp) hcall
  | @freeze e' hm j w b hj hk _ ih =>
    rcases setCgroupFreeze_services w b j e' with hsame | hset
    · exact hR e' _ hsame (by simp) ih
    · exact hR _ _ hset (by simp) (hfreeze e' j b hm hj hk ih)
  | @rest e' e'' _ hr ih => exact hR e' e'' hr.services (by rw [spawns, hr.trace]; rfl) ih
  | @groups e' _ _ ih => exact hR e' _ rfl rfl ih
  | @evictionTick e' _ w ih =>
    exact hR e' _ (services_of_fixed (keeps_evictionTick w _).1) (by simp) ih
  | @evictionReaped e' _ w pid ih =>
    exact hR e' _ (services_of_fixed (keeps_evictionReaped w pid _).1) (by simp) ih

theorem ruleAt {P : Service → Nat → Prop}
    (harc : ∀ u k s s' n, Moves W G K e u → K i k → Arc W u i k s s' → P s n → P s' n)
    (hspawn : K i .spawn → ∀ u s t s' n, u.count = e.count → s.rt.inst.state = .newProcess → SpawnArc u s t →
      core s' = t.core → P s n → P s' (n + 1))
    (hfreeze : K i .freeze → ∀ (s : Service) (n : Nat) (b : Bool), P s n → P { s with rt.isFrozen := b } n)
    (h : Moves W G K e e') (start : P (e.at_ i) (e.spawnsOf i)) : P (e'.at_ i) (e'.spawnsOf i) := by
  refine h.rule (R := fun u => P (u.at_ i) _) ?_ ?_ ?_ ?_ start
  · intro u v hserv hspawns hu
    rwa [at_, hserv, spawnsOf, hspawns]
  · intro u j k s s' hm hj hk ha hu
    by_cases hij : j = i
    · subst hij
      rw [at_put hj] at hu ⊢
      exact harc u k s s' _ hm hk ha hu
    · rwa [at_put_ne hij] at hu ⊢
  · intro u j s' s'' t hm hj hk hst _ _ ha hq hu
    have hcount : j < (u.spawnCall j s').count := (count_put u j s').symm ▸ hj
    by_cases hij : j = i
    · subst hij
      rw [at_put hcount, spawnsOf_put, spawnsOf_spawnCall, if_pos rfl]
      exact hspawn hk u _ t s'' _ hm.count hst ha hq hu
    · rw [at_put_ne hij, spawnsOf_put, spawnsOf_spawnCall, if_neg hij]
      exact (at_put_ne hij : (u.spawnCall j s').at_ i = u.at_ i).symm ▸ hu
  · intro u j b hm hj hk hu
    by_cases hij : j = i
    · subst hij
      rw [at_put hj]
      exact hfreeze hk _ _ b hu
    · rwa [at_put_ne hij]

theorem invariantAt {P : Service → Prop} (harc : ∀ u k s s', u.count = e.count → K i k → Arc W u i k s s' → P s → P s')
    (hspawn : K i .spawn → ∀ u s t s', u.count = e.count → s.rt.inst.state = .newProcess → SpawnArc u s t →
      core s' = t.core → P s → P s')
    (hfreeze : K i .freeze → ∀ (s : Service) (b : Bool), P s → P { s with rt.isFrozen := b })
    (h : Moves W G K e e') (start : P (e.at_ i)) : P (e'.at_ i) :=
  h.ruleAt (fun u k s s' _ hm hk ha hs => harc u k s s' hm.count hk ha hs)
    (fun hk u s t s' _ hu hst ha hq hs => hspawn hk u s t s' hu hst ha hq hs)
    (fun hk s _ b hs => hfreeze hk s b hs) start

section

variable (h : Moves W G K e e')
include h

theorem static (i : Nat) : (e'.at_ i).static = (e.at_ i).static := by
  refine h.invariantAt (fun u k s s' _ _ ha hs => ha.static.trans hs)
    (fun _ u s t s' _ _ ha hq hs => ?_) (fun _ s b hs => hs) rfl
  exact (congrArg Service.static hq :).trans (ha.static.trans hs)

theorem conf (i : Nat) : (e'.at_ i).conf = (e.at_ i).conf :=
  congrArg Prod.fst (h.static i)

theorem mod (hc : i < e'.count → Chain W (K i) e' i (e'.at_ i) (f (e'.at_ i))) : Moves W G K e (e'.mod i f) := by
  by_cases hi : i < e'.count
  · exact .chain h hi (hc hi)
  · rw [Pid1.mod, Pid1.put_of_le (by omega)]
    exact h

theorem ops (w : World) {l : List Op} (hi : i < e'.count)
    (hl : ∀ o ∈ l, (∃ pid sig, o = .signal pid sig) ∨ (K i .op ∧ OpFor e'.cgroupRoot (e'.at_ i) o)) :
    Moves W G K e (l.foldl (apply w) e') := by
  induction l generalizing e' with
  | nil => exact h
  | cons o l ih =>
    have hfixed : (e'.apply w o).fixed = e'.fixed := by simp
    have hnext : Moves W G K e (e'.apply w o) := by
      rcases hl o (by simp) with ⟨pid, sig, rfl⟩ | ⟨hk, ho⟩
      · exact .signal h w pid sig
      · exact .op h w hi hk ho
    refine ih hnext (by rwa [count_of_fixed hfixed]) fun o' ho' => ?_
    rw [at_of_fixed hfixed, root_of_fixed hfixed]
    exact hl o' (mem_cons_of_mem _ ho')

theorem on (w : World) {f : Loc → Loc} (hi : i < e'.count) (hops : ∀ o ∈ (f { svc := e'.at_ i }).ops,
      (∃ pid sig, o = .signal pid sig) ∨ (K i .op ∧ OpFor e'.cgroupRoot (e'.at_ i) o))
    (hc : ∀ u : Pid1, u.fixed = e'.fixed → Chain W (K i) u i (e'.at_ i) (f { svc := e'.at_ i }).svc) :
    Moves W G K e (e'.on w i f) := by
  have hfixed := (keeps_foldl_apply w (f { svc := e'.at_ i }).ops e').1
  refine .chain (h.ops w hi hops) (by rwa [count_of_fixed hfixed]) ?_
  rw [at_of_fixed hfixed]
  exact hc _ hfixed

end

theorem loop {F : Pid1 → Nat → Pid1} {n : Nat} (hF : ∀ u i, u.count = e.count → i < n → Moves W G K u (F u i)) :
    Moves W G K e ((List.range n).foldl F e) :=
  Run.foldl_range (I := fun _ u => Moves W G K e u) .refl fun k u hk hu => hu.trans (hF u k hu.count hk)

end Moves

end SchemaInit.Engine
