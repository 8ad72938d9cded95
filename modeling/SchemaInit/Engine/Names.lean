/-
# `SchemaInit.Engine.Names` — the names of a service table

Control commands, dependencies, the merge of a reload and the re-exec blob all find a
service by the first entry with its name.  `add` refuses a name that is taken; the load
of a directory does not look.  So the names of every table are distinct exactly if the
files give distinct names at boot and at every reload (`service_names_distinct`), and two
files that say the same `name=` give a table with a name twice (`name_loaded_twice`).
-/
import SchemaInit.Engine.Renew

namespace SchemaInit.Engine

open Service List

variable {s : Service} {table table' : List Service} {P : Service → Prop} {name x : Bytes} {W : Nat → World → Prop}
    {G : Pid1 → Nat → Prop} {K : Nat → Kind → Prop} {e e' : Pid1} {j : Nat}

/-! ## The name of a file -/

/-- The name a file gives its service: the file name if it is an instance or the file says none. -/
def SvcFile.svcName (f : SvcFile) : Bytes :=
  if f.named && (f.baseName.contains (ch '@') || f.conf.name.isEmpty) then f.baseName.take 63 else f.conf.name

theorem name_svcFinalize {f : SvcFile} (h : svcFinalize f = some s) : s.conf.name = f.svcName := by
  unfold svcFinalize at h
  split at h
  · cases h
  · split at h
    · cases h
    · split at h
      · cases h
      · extract_lets _ s1 _ s2 _ s3 at_ _ s4 at h
        have h2 : s2.conf.name = f.conf.name := by
          unfold s2
          split
          · rfl
          · rfl
        have h3 : s3.conf.name = f.conf.name := by
          unfold s3
          split
          · exact h2
          · exact h2
        have h4 : s4.conf.name = f.svcName := by
          unfold s4 SvcFile.svcName
          rw [h3]
          split
          · rfl
          · exact h3
        split at h
        · cases h
        · split at h
          · cases h
          · split at h
            · cases h
            · split at h
              · cases h
              · exact Option.some.inj h ▸ h4

/-! ## The names of a load -/

def svcNames (table : List Service) : List Bytes :=
  table.map fun s => s.conf.name

/-- The files of the directory that is used: the fallback if nothing in the service directory loads. -/
def Config.files (c : Config) : List SvcFile :=
  if (servicesLoad c.dir.files).isEmpty then (c.fallback.map fun d => d.files).getD c.dir.files else c.dir.files

theorem Config.services_eq (c : Config) : c.services = servicesLoad c.files := by
  unfold Config.services Config.files
  dsimp only
  split
  · cases c.fallback with
    | none => rfl
    | some d => rfl
  · rfl

/-- No two of the files that load, as many as there is room for, give the same name. -/
def Config.NamesDiffer (c : Config) : Prop :=
  ((c.files.filter fun f => (svcFinalize f).isSome).take maxServices).Pairwise fun f g => f.svcName ≠ g.svcName

instance (c : Config) : Decidable c.NamesDiffer :=
  inferInstanceAs (Decidable (List.Pairwise _ _))

theorem svcNames_filterMap (files : List SvcFile) :
    svcNames (files.filterMap svcFinalize) = (files.filter fun f => (svcFinalize f).isSome).map SvcFile.svcName := by
  induction files with
  | nil => rfl
  | cons f files ih =>
    rw [filterMap_cons, filter_cons]
    cases hf : svcFinalize f with
    | none => exact ih
    | some s =>
      simp only [Option.isSome_some, if_true, map_cons]
      rw [← name_svcFinalize hf, ← ih]
      rfl

theorem Config.nodup_iff (c : Config) : (svcNames c.services).Nodup ↔ c.NamesDiffer := by
  have hnames : svcNames c.services =
      ((c.files.filter fun f => (svcFinalize f).isSome).take maxServices).map SvcFile.svcName := by
    rw [c.services_eq, servicesLoad, map_take, ← svcNames_filterMap, svcNames, svcNames, map_take]
  rw [hnames, List.Nodup, pairwise_map]
  rfl

def Service.slots (s : Service) : Conf × List (Option Nat) × List (Option Nat) :=
  (s.conf, s.depIdx, s.grpDepIdx)

theorem slots_moves (h : Moves W G K e e') : e'.services.map slots = e.services.map slots := by
  refine ext_getElem? fun i => ?_
  simp only [getElem?_map]
  by_cases hi : i < e.count
  · rw [Pid1.getElem?_at hi, Pid1.getElem?_at (h.count ▸ hi), Option.map_some, Option.map_some]
    have hstatic := h.static i
    simp only [static, Prod.mk.injEq] at hstatic
    simp [slots, hstatic]
  · have hi' : ¬ i < e'.count := h.count ▸ hi
    rw [getElem?_eq_none (Nat.not_lt.mp hi), getElem?_eq_none (Nat.not_lt.mp hi')]

theorem slots_mapIdx {f : Nat → Service → Service} (hf : ∀ i s, (f i s).slots = s.slots) (table : List Service) :
    (table.mapIdx f).map slots = table.map slots := by
  refine ext_getElem? fun i => ?_
  simp [hf, Function.comp_def]

theorem Service.slots_timerArm (w : World) (s : Service) : (s.timerArm w).slots = s.slots := by
  rw [timerArm]
  split
  · split
    · rfl
    · rfl
  · rfl

theorem slots_merge (w : World) (shadow live : List Service) :
    (merge w shadow live).1.map slots = shadow.map slots := by
  induction shadow generalizing live with
  | nil => rfl
  | cons s shadow ih =>
    unfold merge
    cases live.findIdx? fun t => t.conf.name = s.conf.name with
    | none => exact congrArg (s.slots :: ·) (ih live)
    | some j =>
      obtain ⟨r, hr⟩ := s.takeOver_eq w (live.getD j default)
      rw [map_cons, hr]
      exact congrArg (s.slots :: ·) (ih _)

theorem Service.slots_armIfNew (w : World) (s : Service) : (s.armIfNew w).slots = s.slots := by
  unfold armIfNew
  split
  · exact s.slots_timerArm w
  · rfl

theorem svcNames_of_slots (h : table'.map slots = table.map slots) : svcNames table' = svcNames table := by
  have hnames := congrArg (List.map fun x => x.1.name) h
  rwa [map_map, map_map] at hnames

theorem svcNames_resolve (table : List Service) (groups : List Group) :
    svcNames (validateAndResolve table groups).1 = svcNames table := by
  simp only [svcNames, validateAndResolve, map_map]
  rfl

theorem svcNames_set {i : Nat}
    (hname : s.conf.name = (table.getD i default).conf.name) : svcNames (table.set i s) = svcNames table := by
  unfold svcNames
  rw [map_set, hname]
  refine ext_getElem? fun k => ?_
  by_cases hk : i = k
  · subst hk
    by_cases hi : i < table.length
    · simp [hi]
    · rw [set_eq_of_length_le (by simpa using hi)]
  · rw [getElem?_set_ne hk]

/-- The first service of a name in a table, if there is one, has a property. -/
def FirstHas (P : Service → Prop) (x : Bytes) (table : List Service) : Prop :=
  ∀ j, ((svcNames table).findIdx? fun n => n = x) = some j → P (table.getD j default)

theorem svcNames_takenOver (table : List Service) (i : Nat) :
    svcNames (table.set i (table.getD i default).takenOver) = svcNames table :=
  svcNames_set rfl

theorem FirstHas.set (hP : ∀ t, P t → P t.takenOver)
    (h : FirstHas P x table) (i : Nat) : FirstHas P x (table.set i (table.getD i default).takenOver) := by
  intro j hj
  rw [svcNames_takenOver] at hj
  have hhas := h j hj
  by_cases hij : i = j
  · subst hij
    by_cases hi : i < table.length
    · have hset : (table.set i (table.getD i default).takenOver).getD i default = (table.getD i default).takenOver := by
        simp [hi]
      rw [hset]
      exact hP _ hhas
    · rw [set_eq_of_length_le (by omega)]
      exact hhas
  · rw [getD_eq_getElem?_getD, getElem?_set_ne hij, ← getD_eq_getElem?_getD]
    exact hhas

/-- The merge of a reload hands the state of the first live service of a name to every new one of
that name; if there is none the new ones start afresh. -/
theorem merge_first (hP : ∀ t, P t → P t.takenOver) {w : World} {shadow live : List Service}
    (hlive : FirstHas P x live) {k : Nat} {s' : Service} (h : (merge w shadow live).1[k]? = some s')
    (hname : s'.conf.name = x) :
    (((svcNames live).findIdx? fun n => n = x) = none ∧ s' ∈ shadow) ∨ ∃ s t : Service, P t ∧ s' = s.takeOver w t := by
  induction shadow generalizing live k with
  | nil => simp [merge] at h
  | cons s shadow ih =>
    have hfirst : (live.findIdx? fun t => t.conf.name = s.conf.name) =
        (svcNames live).findIdx? fun n => n = s.conf.name := by
      rw [svcNames, findIdx?_map]
      rfl
    unfold merge at h
    rw [hfirst] at h
    cases hfind : (svcNames live).findIdx? fun n => n = s.conf.name with
    | none =>
      rw [hfind] at h
      cases k with
      | zero =>
        simp only [getElem?_cons_zero, Option.some.injEq] at h
        subst h
        rw [hname] at hfind
        exact .inl ⟨hfind, mem_cons_self ..⟩
      | succ k =>
        rcases ih hlive h with ⟨hnone, hmem⟩ | hkept
        · exact .inl ⟨hnone, mem_cons_of_mem _ hmem⟩
        · exact .inr hkept
    | some i =>
      rw [hfind] at h
      cases k with
      | zero =>
        simp only [getElem?_cons_zero, Option.some.injEq] at h
        subst h
        rw [takeOver_conf] at hname
        rw [hname] at hfind
        exact .inr ⟨s, _, hlive i hfind, rfl⟩
      | succ k =>
        rcases ih (hlive.set hP i) h with ⟨hnone, hmem⟩ | hkept
        · rw [svcNames_takenOver] at hnone
          exact .inl ⟨hnone, mem_cons_of_mem _ hmem⟩
        · exact .inr hkept

theorem Service.conf_timerArm (w : World) (s : Service) : (s.timerArm w).conf = s.conf :=
  congrArg Prod.fst (s.slots_timerArm w)

/-! ## Every table -/

namespace Pid1

theorem svcNames_boot (ws : Nat → World) (root : Bytes) (c : Config) :
    svcNames (boot ws root c).services = svcNames c.services := by
  rw [← svcNames_resolve c.services c.groups]
  refine svcNames_of_slots (slots_mapIdx (fun i s => ?_) _)
  split
  · exact s.slots_timerArm (ws i)
  · rfl

theorem svcNames_adoptConfig (w : World) (ws : Nat → World) (evict : Bool) (c : Config) (e : Pid1) :
    svcNames (e.adoptConfig w ws evict c).services = svcNames c.services := by
  rw [services_adoptConfig, ← svcNames_resolve c.services c.groups]
  exact svcNames_of_slots ((slots_mapIdx (fun i s => s.slots_armIfNew (ws i)) _).trans (slots_merge w _ e.services))

theorem slots_mod (e : Pid1) (i : Nat) {f : Service → Service} (hf : ∀ s, (f s).slots = s.slots) :
    (e.mod i f).services.map slots = e.services.map slots := by
  have hset : ∀ s, (e.put i s).services.map slots = (e.services.map slots).set i s.slots :=
    fun _ => map_set
  rw [mod, hset, hf, ← hset, put_at]

theorem svcNames_ctlAdd (w : World) (path : Bytes) (file : Option SvcFile) (e : Pid1) :
    svcNames (e.ctlAdd w path file).1.services = svcNames e.services ∨
      ∃ name, name ∉ svcNames e.services ∧
        svcNames (e.ctlAdd w path file).1.services = svcNames e.services ++ [name] := by
  unfold ctlAdd
  split
  · exact .inl rfl
  · split
    · exact .inl rfl
    next s hs =>
      split
      · exact .inl rfl
      next hnew =>
        have hnew : s.conf.name ∉ svcNames e.services := by
          simpa [svcNames] using hnew
        have hnames : svcNames (validateAndResolve (e.services ++ [s]) e.groups).1 =
            svcNames e.services ++ [s.conf.name] := by
          rw [svcNames_resolve, svcNames, map_append]
          rfl
        dsimp only
        split
        · -- rejected for a cycle: the new entry goes again
          have hcount : e.count = (svcNames e.services).length := (length_map ..).symm
          refine .inl ?_
          rw [svcNames_resolve, svcNames, map_take, ← svcNames, hnames, hcount, take_left]
        · refine .inr ⟨s.conf.name, hnew, ?_⟩
          refine (svcNames_of_slots (slots_mod _ _
            (f := fun s => if s.flags.timer then s.timerArm w else s) fun s => ?_)).trans hnames
          split
          · exact s.slots_timerArm w
          · rfl

theorem nodup_ctlAdd (h : (svcNames e.services).Nodup) (w : World) (path : Bytes) (file : Option SvcFile) :
    (svcNames (e.ctlAdd w path file).1.services).Nodup := by
  rcases svcNames_ctlAdd w path file e with heq | ⟨name, hnew, heq⟩
  · rw [heq]
    exact h
  · rw [heq]
    exact h.append (nodup_singleton _) (disjoint_singleton.mpr hnew)

theorem find_eq (e : Pid1) (name : Bytes) : e.find name = (svcNames e.services).findIdx? fun n => n = name := by
  rw [find, svcNames, findIdx?_map]
  rfl

theorem find_name (h : e.find name = some j) : (e.at_ j).conf.name = name := by
  obtain ⟨hj, hname, -⟩ := findIdx?_eq_some_iff_getElem.mp h
  rw [at_eq (getElem?_eq_getElem hj)]
  exact of_decide_eq_true hname

theorem find_of_moves (h : Moves W G K e e') (name : Bytes) : e'.find name = e.find name := by
  rw [find_eq, find_eq, svcNames_of_slots (slots_moves h)]

theorem find_ctlAdd (h : e.find name = some j) (w : World) (path : Bytes)
    (file : Option SvcFile) : (e.ctlAdd w path file).1.find name = some j := by
  rw [find_eq] at h ⊢
  rcases svcNames_ctlAdd w path file e with heq | ⟨n, -, heq⟩
  · rwa [heq]
  · rw [heq, findIdx?_append, h]
    rfl

def ReloadsDiffer (e : Pid1) (x : Input) : Prop :=
  ∀ r, x.reload? = some r → reloadError e.services r.config = none → r.config.NamesDiffer

theorem nodup_step (h : (svcNames e.services).Nodup) {x : Input} (hx : e.ReloadsDiffer x) :
    (svcNames (e.step x).services).Nodup := by
  cases step_cases e x with
  | moves hm =>
    rw [svcNames_of_slots (slots_moves hm)]
    exact h
  | refused heq =>
    rw [heq]
    exact h
  | reload r hr herr heq =>
    rw [heq, svcNames_adoptConfig, Config.nodup_iff]
    exact hx r hr herr
  | add w ws path file _ heq =>
    rw [heq]
    exact nodup_ctlAdd h w path file

end Pid1

open Pid1 in
/-- The names are distinct after a boot exactly if no two files give the same one, and from there in every
table of every run whose accepted reloads find such files, whatever is added by hand. -/
theorem service_names_distinct (ws : Nat → World) (root : Bytes) (c : Config) :
    ((svcNames (boot ws root c).services).Nodup ↔ c.NamesDiffer) ∧
      (c.NamesDiffer → ∀ e, Run.Reaches step ReloadsDiffer (boot ws root c) e → (svcNames e.services).Nodup) := by
  have hboot : (svcNames (boot ws root c).services).Nodup ↔ c.NamesDiffer := by
    rw [svcNames_boot, Config.nodup_iff]
  exact ⟨hboot, fun hc e hrun => hrun.invariant (fun e => (svcNames e.services).Nodup) (hboot.mpr hc)
    fun u x hu hx => nodup_step hu hx⟩

def twoFiles (name : String) : Config where
  dir := { files := [
    { fname := cstr "web.svc", conf := { name := [], exec := cstr "/bin/web" } },
    { fname := cstr "api.svc", conf := { name := cstr name, exec := cstr "/bin/api" } }] }
  integrity := false

def dbFile : SvcFile where
  fname := cstr "db.svc"
  conf := { name := [], exec := cstr "/bin/db" }

open Pid1 in
theorem service_names_distinct_added : let e := [Input.ctl {} (fun _ => {}) (.add (cstr "/tmp/db.svc") (some dbFile)),
      .hup {} (fun _ => {}) (twoFiles "web2")].foldl step (boot (fun _ => {}) (cstr "/cg") (twoFiles "api"))
    svcNames e.services = [cstr "web", cstr "web2"] ∧ (svcNames e.services).Nodup := by
  refine ⟨by decide +kernel, ((service_names_distinct _ _ (twoFiles "api")).2
    (by decide) _ (Run.AllOk.reaches ⟨?_, ?_, trivial⟩))⟩
  · rintro r ⟨⟩
  · rintro r ⟨⟩ -
    decide

open Pid1 in
/-- `api.svc` says `name=web`: both services are loaded, at boot and by a reload. -/
theorem name_loaded_twice : (∃ e, Started e ∧ svcNames e.services = [cstr "web", cstr "web"]) ∧
      ∃ e x, Reachable e ∧ (svcNames e.services).Nodup ∧ svcNames (e.step x).services = [cstr "web", cstr "web"] := by
  refine ⟨⟨boot (fun _ => {}) (cstr "/cg") (twoFiles "web"), ⟨_, _, _, by decide +kernel, rfl⟩, by decide +kernel⟩, ?_⟩
  refine ⟨boot (fun _ => {}) (cstr "/cg") (twoFiles "api"), .hup {} (fun _ => {}) (twoFiles "web"),
    ⟨_, ⟨_, _, _, by decide +kernel, rfl⟩, .refl _⟩, ?_⟩
  decide +kernel

end SchemaInit.Engine
