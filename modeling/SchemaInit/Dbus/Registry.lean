/-
# `SchemaInit.Dbus.Registry` — what the name registry keeps

`Names.Sound` is the registry's invariant: names are distinct, and no connection
stands twice among the holders of one name.  For each operation there is one
lemma that says who may hold a name afterwards and one that says how the owners
changed: a transition is reported exactly for the names whose owner changed, with
the owner before and the owner after.

The rules of `RequestName` are kept for everyone but a connection that waits already:
the request finds it in the queue and leaves it there, whatever the flags say
(`request_follows_rules_iff`).
-/
import SchemaInit.Dbus.Names

namespace SchemaInit.Dbus

open Names Option KeyedList

variable {hs : List Holder} {c x : ConnId} {r : Names} {name : Bytes} {i : Nat}

def holderIds (hs : List Holder) : List ConnId :=
  hs.map Holder.connId

def ownerOf (hs : List Holder) : Option ConnId :=
  hs.head?.map Holder.connId

theorem ownerOf_mem (h : ownerOf hs = some c) : c ∈ holderIds hs := by
  cases hs with
  | nil => simp [ownerOf] at h
  | cons x hs => simp [ownerOf] at h; simp [holderIds, h]

structure Names.Sound (r : Names) : Prop where
  distinct : (r.names.map NameEnt.name).Nodup
  once : ∀ e ∈ r.names, (holderIds e.holders).Nodup

def Names.Holding (r : Names) (c : ConnId) : Prop :=
  ∃ e ∈ r.names, c ∈ holderIds e.holders

theorem Names.holding_of_owner {id : ConnId} (h : r.owner name = some id) : r.Holding id := by
  obtain ⟨e, hfind, howner⟩ := bind_eq_some_iff.mp h
  exact ⟨e, mem_of_lookup hfind, ownerOf_mem howner⟩

theorem Names.sound_new : new.Sound := by
  constructor <;> simp [new]

/-! ## One list of holders -/

theorem holderIndex_eq_none : holderIndex hs c = none ↔ c ∉ holderIds hs := by
  simp [holderIndex, holderIds]

theorem holderIndex_eq_some (h : holderIndex hs c = some i) : (holderIds hs)[i]? = some c := by
  obtain ⟨hlt, hc, _⟩ := List.findIdx?_eq_some_iff_getElem.mp h
  simp only [decide_eq_true_eq] at hc
  simp [holderIds, List.getElem?_eq_getElem hlt, hc]

theorem holderIds_modify (hs : List Holder) (i : Nat) (flags : ReqFlags) :
    holderIds (hs.modify i (fun h => { h with flags := flags })) = holderIds hs := by
  induction hs generalizing i with
  | nil => cases i <;> rfl
  | cons x hs ih =>
    cases i with
    | zero => rfl
    | succ i => simpa [holderIds] using ih i

theorem holderIds_eraseIdx (hs : List Holder) (i : Nat) : holderIds (hs.eraseIdx i) = (holderIds hs).eraseIdx i := by
  simp [holderIds, List.eraseIdx_map]

/-- What a request makes of the holders: no one new but the caller, and a new
owner exactly when it says so; that is one who did not hold the name before. -/
theorem requestHolders_spec (hs : List Holder) (c : ConnId) (flags : ReqFlags) (hn : (holderIds hs).Nodup) :
    (holderIds (requestHolders hs c flags).1).Nodup ∧
      (∀ x ∈ holderIds (requestHolders hs c flags).1, x = c ∨ x ∈ holderIds hs) ∧
      ownerOf (requestHolders hs c flags).1 = (if (requestHolders hs c flags).2.2 then some c else ownerOf hs) ∧
      ((requestHolders hs c flags).2.2 = true → c ∉ holderIds hs) := by
  cases hs with
  | nil => simp [requestHolders, holderIds, ownerOf]
  | cons owner queue =>
    cases hidx : holderIndex (owner :: queue) c with
    | some i =>
      -- the caller holds the name already: only its flags change
      cases i with
      | zero =>
        simp only [requestHolders, hidx]
        exact ⟨hn, fun x hx => .inr hx, rfl, fun h => nomatch h⟩
      | succ i =>
        have hids := holderIds_modify (owner :: queue) (i + 1) flags
        simp only [requestHolders, hidx, hids]
        exact ⟨hn, fun x hx => .inr hx, rfl, fun h => nomatch h⟩
    | none =>
      have hnew : c ∉ holderIds (owner :: queue) := holderIndex_eq_none.mp hidx
      have hqueue : (holderIds queue).Nodup := (List.nodup_cons.mp hn).2
      have hnotq : c ∉ holderIds queue := fun hc => hnew (List.mem_cons_of_mem _ hc)
      simp only [requestHolders, hidx]
      split
      · split
        · refine ⟨List.nodup_cons.mpr ⟨hnotq, hqueue⟩, fun x hx => ?_, rfl, fun _ => hnew⟩
          rcases List.mem_cons.mp hx with rfl | hx
          · exact .inl rfl
          · exact .inr (List.mem_cons_of_mem _ hx)
        · exact ⟨List.nodup_cons.mpr ⟨hnew, hn⟩, fun x hx => List.mem_cons.mp hx, rfl, fun _ => hnew⟩
      · split
        · exact ⟨hn, fun x hx => .inr hx, rfl, fun h => nomatch h⟩
        · have hids : holderIds ((owner :: queue) ++ [{ connId := c, flags := flags }]) =
              holderIds (owner :: queue) ++ [c] := by simp [holderIds]
          simp only [hids]
          refine ⟨List.nodup_append.mpr ⟨hn, by simp, ?_⟩, fun x hx => ?_, rfl, fun h => nomatch h⟩
          · intro a ha b hb hab
            simp only [List.mem_singleton] at hb
            exact hnew (hb ▸ hab ▸ ha)
          · rcases List.mem_append.mp hx with hx | hx
            · exact .inr hx
            · exact .inl (List.mem_singleton.mp hx)

theorem eraseIdx_spec (hi : holderIndex hs c = some i) (hn : (holderIds hs).Nodup) :
    (holderIds (hs.eraseIdx i)).Nodup ∧ c ∉ holderIds (hs.eraseIdx i) ∧
      (∀ x ∈ holderIds (hs.eraseIdx i), x ∈ holderIds hs) ∧
      (i = 0 → ownerOf hs = some c) ∧ (i ≠ 0 → ownerOf (hs.eraseIdx i) = ownerOf hs) := by
  obtain ⟨hlt, hci⟩ := List.getElem?_eq_some_iff.mp (holderIndex_eq_some hi)
  have hperm := List.getElem_cons_eraseIdx_perm hlt
  rw [hci] at hperm
  obtain ⟨hnot, hnodup⟩ := List.nodup_cons.mp (hperm.nodup_iff.mpr hn)
  rw [holderIds_eraseIdx]
  refine ⟨hnodup, hnot, fun x hx => List.mem_of_mem_eraseIdx hx, fun h0 => ?_, fun hne => ?_⟩
  · subst h0
    cases hs with
    | nil => simp [holderIds] at hlt
    | cons x hs => simpa [ownerOf, holderIds] using hci
  · cases hs with
    | nil => rfl
    | cons x hs =>
      cases i with
      | zero => exact absurd rfl hne
      | succ i => rfl

/-! ## The registry -/

namespace Names

theorem find_setHolders (r : Names) (name : Bytes) (hs : List Holder) (n : Bytes) : (r.setHolders name hs).find n =
      (r.find n).map (fun e => if e.name = name then { e with holders := hs } else e) :=
  lookup_update (f := fun e : NameEnt => { e with holders := hs }) (fun _ => rfl) n

/-- Owner and queue of a name. -/
def holders (r : Names) (name : Bytes) : List Holder :=
  ((r.find name).map NameEnt.holders).getD []

theorem ownerOf_holders (r : Names) (n : Bytes) : ownerOf (r.holders n) = r.owner n := by
  rw [holders, owner]
  cases r.find n with
  | none => rfl
  | some e => rfl

theorem holders_setHolders (r : Names) (hs : List Holder) (hfind : (r.find name).isSome) (n : Bytes) :
    (r.setHolders name hs).holders n = if n = name then hs else r.holders n := by
  rw [holders, find_setHolders, holders]
  cases hn : r.find n with
  | none =>
    have hne : n ≠ name := by
      rintro rfl
      simp [hn] at hfind
    simp [hne]
  | some e =>
    have hname : e.name = n := key_of_lookup hn
    subst hname
    by_cases h : e.name = name
    · simp [h]
    · simp [h]

theorem owner_setHolders (r : Names) (hs : List Holder) (hfind : (r.find name).isSome) (n : Bytes) :
    (r.setHolders name hs).owner n = if n = name then ownerOf hs else r.owner n := by
  rw [← ownerOf_holders, holders_setHolders r hs hfind, ← ownerOf_holders]
  exact apply_ite ownerOf ..

theorem Sound.setHolders (h : r.Sound) (name : Bytes) (hn : (holderIds hs).Nodup) : (r.setHolders name hs).Sound where
  distinct := by
    have hmap : (r.setHolders name hs).names.map NameEnt.name = r.names.map NameEnt.name :=
      map_update (fun _ => rfl)
    rw [hmap]
    exact h.distinct
  once := by
    intro e he
    obtain ⟨e₀, he₀, rfl⟩ := mem_update.mp he
    split
    · exact hn
    · exact h.once e₀ he₀

theorem Holding.of_setHolders (h : (r.setHolders name hs).Holding x) : x ∈ holderIds hs ∨ r.Holding x := by
  obtain ⟨e, he, hx⟩ := h
  obtain ⟨e₀, he₀, rfl⟩ := mem_update.mp he
  split at hx
  · exact .inl hx
  · exact .inr ⟨e₀, he₀, hx⟩

/-! ### Interning -/

theorem intern_cases (r : Names) (name : Bytes) : (∃ e, r.find name = some e ∧ r.intern name = r) ∨
      (r.find name = none ∧ r.intern name = { r with names := r.names ++ [{ name := name, holders := [] }] }) := by
  unfold intern
  cases h : r.find name with
  | none => exact .inr ⟨rfl, rfl⟩
  | some e => exact .inl ⟨e, rfl, rfl⟩

theorem Sound.intern (h : r.Sound) (name : Bytes) : (r.intern name).Sound := by
  rcases r.intern_cases name with ⟨e, _, heq⟩ | ⟨hnone, heq⟩
  · rwa [heq]
  · have hnew : name ∉ r.names.map NameEnt.name := lookup_eq_none.mp hnone
    rw [heq]
    constructor
    · rw [List.map_append, List.nodup_append]
      refine ⟨h.distinct, by simp, ?_⟩
      intro a ha b hb hab
      simp only [List.map_cons, List.map_nil, List.mem_singleton] at hb
      exact hnew (hb ▸ hab ▸ ha)
    · intro e he
      rcases List.mem_append.mp he with he | he
      · exact h.once e he
      · rw [List.mem_singleton.mp he]
        exact List.nodup_nil

theorem Holding.of_intern (h : (r.intern name).Holding x) : r.Holding x := by
  rcases r.intern_cases name with ⟨e, _, heq⟩ | ⟨_, heq⟩
  · rwa [heq] at h
  · rw [heq] at h
    obtain ⟨e, he, hx⟩ := h
    rcases List.mem_append.mp he with he | he
    · exact ⟨e, he, hx⟩
    · rw [List.mem_singleton.mp he] at hx
      simp [holderIds] at hx

theorem find_intern (r : Names) (name : Bytes) :
    ∃ e, (r.intern name).find name = some e ∧ ownerOf e.holders = r.owner name ∧ e ∈ (r.intern name).names := by
  rcases r.intern_cases name with ⟨e, hfind, heq⟩ | ⟨hnone, heq⟩
  · refine ⟨e, by rw [heq, hfind], ?_, ?_⟩
    · rw [owner, hfind]
      rfl
    · rw [heq]
      exact mem_of_lookup hfind
  · refine ⟨{ name := name, holders := [] }, ?_, ?_, ?_⟩
    · have hfirst : r.names.find? (fun e => decide (e.name = name)) = none := hnone
      rw [heq]
      simp [find, lookup, hfirst]
    · simp [owner, hnone, ownerOf]
    · rw [heq]
      simp

theorem holders_intern (r : Names) (name n : Bytes) :
    (r.intern name).holders n = r.holders n := by
  rcases r.intern_cases name with ⟨e, _, heq⟩ | ⟨hnone, heq⟩
  · rw [heq]
  · by_cases hn : n = name
    · subst hn
      have hfirst : r.names.find? (fun e => decide (e.name = n)) = none := hnone
      rw [heq, holders, holders, hnone]
      simp [find, lookup, hfirst]
    · have hskip : ¬ name = n := fun h => hn h.symm
      rw [heq]
      simp [holders, find, lookup, hskip]

theorem owner_intern (r : Names) (name n : Bytes) : (r.intern name).owner n = r.owner n := by
  rw [← ownerOf_holders, holders_intern, ownerOf_holders]

theorem intern_uniques (r : Names) (name : Bytes) :
    (r.intern name).uniques = r.uniques ∧ (r.intern name).nextUnique = r.nextUnique := by
  rcases r.intern_cases name with ⟨e, _, heq⟩ | ⟨_, heq⟩
  · rw [heq]
    exact ⟨rfl, rfl⟩
  · rw [heq]
    exact ⟨rfl, rfl⟩

/-! ### Requests, releases, disconnects -/

/-- The transitions report the changes of owner from `r` to `r'`: none for a name
whose owner stayed, else one with the owner before and the owner after. -/
def Reports (r r' : Names) (ts : List Transition) : Prop :=
  ∀ n, ts.filter (fun t => t.name = n) = [] ∧ r'.owner n = r.owner n ∨
    ts.filter (fun t => t.name = n) = [{ name := n, oldOwner := r.owner n, newOwner := r'.owner n }] ∧
      r'.owner n ≠ r.owner n

theorem Reports.refl (r : Names) : r.Reports r [] :=
  fun _ => .inl ⟨rfl, rfl⟩

theorem Reports.of_one {r' : Names} (name : Bytes) {ts : List Transition}
    (hother : ∀ n, n ≠ name → r'.owner n = r.owner n)
    (hname : ts = [] ∧ r'.owner name = r.owner name ∨
      ts = [{ name := name, oldOwner := r.owner name, newOwner := r'.owner name }] ∧
        r'.owner name ≠ r.owner name) : r.Reports r' ts := by
  intro n
  by_cases hn : n = name
  · subst hn
    rcases hname with ⟨rfl, hsame⟩ | ⟨rfl, hdiffer⟩
    · exact .inl ⟨rfl, hsame⟩
    · exact .inr ⟨by simp, hdiffer⟩
  · have hn' : ¬ name = n := fun h => hn h.symm
    refine .inl ⟨?_, hother n hn⟩
    rcases hname with ⟨rfl, _⟩ | ⟨rfl, _⟩
    · rfl
    · simp [hn']

theorem request_spec (h : r.Sound) (c : ConnId) (name : Bytes) (flags : ReqFlags) : (r.request c name flags).1.Sound ∧
      (∀ x, (r.request c name flags).1.Holding x → x = c ∨ r.Holding x) ∧
      r.Reports (r.request c name flags).1 (r.request c name flags).2.2 := by
  obtain ⟨e, hfind, howner, hmem⟩ := r.find_intern name
  obtain ⟨hnodup, hids, hnew, hfresh⟩ := requestHolders_spec e.holders c flags ((h.intern name).once e hmem)
  have hsome : ((r.intern name).find name).isSome := by simp [hfind]
  simp only [request, hfind, map_some, getD_some]
  refine ⟨(h.intern name).setHolders name hnodup, fun x hx => ?_, Reports.of_one name (fun n hn => ?_) ?_⟩
  · rcases Holding.of_setHolders hx with hx | hx
    · rcases hids x hx with hx | hx
      · exact .inl hx
      · exact .inr (Holding.of_intern ⟨e, hmem, hx⟩)
    · exact .inr (Holding.of_intern hx)
  · rw [owner_setHolders _ _ hsome, if_neg hn, owner_intern]
  · rw [owner_setHolders _ _ hsome, if_pos rfl, hnew, ← howner]
    cases hchanged : (requestHolders e.holders c flags).2.2 with
    | false => exact .inl ⟨rfl, rfl⟩
    | true => exact .inr ⟨rfl, fun hsame => hfresh hchanged (ownerOf_mem hsame.symm)⟩

theorem request_uniques (r : Names) (c : ConnId) (name : Bytes) (flags : ReqFlags) :
    (r.request c name flags).1.uniques = r.uniques ∧ (r.request c name flags).1.nextUnique = r.nextUnique :=
  r.intern_uniques name

theorem release_cases (r : Names) (c : ConnId) (name : Bytes) : (∃ res, r.release c name = (r, res, [])) ∨
      ∃ e i, r.find name = some e ∧ holderIndex e.holders c = some i ∧
        r.release c name = (r.setHolders name (e.holders.eraseIdx i), .released,
          if i = 0 then [{ name := name, oldOwner := some c, newOwner := ownerOf (e.holders.eraseIdx i) }] else []) := by
  cases hfind : r.find name with
  | none => exact .inl ⟨.nonExistent, by simp [release, hfind]⟩
  | some e =>
    by_cases hempty : e.holders = []
    · exact .inl ⟨.nonExistent, by simp [release, hfind, hempty]⟩
    · cases hidx : holderIndex e.holders c with
      | none => exact .inl ⟨.notOwner, by simp [release, hfind, hempty, hidx]⟩
      | some i => exact .inr ⟨e, i, rfl, hidx, by simp [release, hfind, hempty, hidx, ownerOf]⟩

theorem release_spec (h : r.Sound) (c : ConnId) (name : Bytes) : (r.release c name).1.Sound ∧
      (∀ x, (r.release c name).1.Holding x → r.Holding x) ∧
      r.Reports (r.release c name).1 (r.release c name).2.2 := by
  rcases r.release_cases c name with ⟨res, heq⟩ | ⟨e, i, hfind, hidx, heq⟩
  · rw [heq]
    exact ⟨h, fun _ hx => hx, Reports.refl r⟩
  · have hmem : e ∈ r.names := mem_of_lookup hfind
    have howner : r.owner name = ownerOf e.holders := by rw [owner, hfind]; rfl
    have hsome : (r.find name).isSome := by simp [hfind]
    obtain ⟨hnodup, hnot, hids, hfirst, hlater⟩ := eraseIdx_spec hidx (h.once e hmem)
    rw [heq]
    refine ⟨h.setHolders name hnodup, fun x hx => ?_, Reports.of_one name (fun n hn => ?_) ?_⟩
    · rcases Holding.of_setHolders hx with hx | hx
      · exact ⟨e, hmem, hids x hx⟩
      · exact hx
    · rw [owner_setHolders _ _ hsome, if_neg hn]
    · rw [owner_setHolders _ _ hsome, if_pos rfl, howner]
      by_cases h0 : i = 0
      · refine .inr ⟨by rw [if_pos h0, hfirst h0], fun hsame => hnot (ownerOf_mem ?_)⟩
        rw [hsame, hfirst h0]
      · exact .inl ⟨if_neg h0, hlater h0⟩

theorem release_uniques (r : Names) (c : ConnId) (name : Bytes) :
    (r.release c name).1.uniques = r.uniques ∧ (r.release c name).1.nextUnique = r.nextUnique := by
  rcases r.release_cases c name with ⟨res, heq⟩ | ⟨e, i, _, _, heq⟩
  · rw [heq]
    exact ⟨rfl, rfl⟩
  · rw [heq]
    exact ⟨rfl, rfl⟩

theorem disconnectEnt_spec (c : ConnId) {e : NameEnt} (hn : (holderIds e.holders).Nodup) :
    (disconnectEnt c e).1.name = e.name ∧ (holderIds (disconnectEnt c e).1.holders).Nodup ∧
      c ∉ holderIds (disconnectEnt c e).1.holders ∧
      (∀ x ∈ holderIds (disconnectEnt c e).1.holders, x ∈ holderIds e.holders) ∧
      ((disconnectEnt c e).2 = none ∧ ownerOf (disconnectEnt c e).1.holders = ownerOf e.holders ∨
        (disconnectEnt c e).2 =
            some { name := e.name, oldOwner := some c, newOwner := ownerOf (disconnectEnt c e).1.holders } ∧
          ownerOf e.holders = some c) := by
  unfold disconnectEnt
  cases hidx : holderIndex e.holders c with
  | none => exact ⟨rfl, hn, holderIndex_eq_none.mp hidx, fun x hx => hx, .inl ⟨rfl, rfl⟩⟩
  | some i =>
    obtain ⟨hnodup, hnot, hids, hfirst, hlater⟩ := eraseIdx_spec hidx hn
    refine ⟨rfl, hnodup, hnot, hids, ?_⟩
    by_cases h0 : i = 0
    · exact .inr ⟨by simp only [if_pos h0]; rfl, hfirst h0⟩
    · exact .inl ⟨if_neg h0, hlater h0⟩

theorem Sound.disconnect (h : r.Sound) (c : ConnId) : (r.disconnect c).1.Sound where
  distinct := by
    have hmap : (r.disconnect c).1.names.map NameEnt.name = r.names.map NameEnt.name := by
      simp only [Names.disconnect, List.map_map]
      apply List.map_congr_left
      intro e he
      exact (disconnectEnt_spec c (h.once e he)).1
    rw [hmap]
    exact h.distinct
  once := by
    intro e he
    obtain ⟨e₀, he₀, rfl⟩ := List.mem_map.mp he
    exact (disconnectEnt_spec c (h.once e₀ he₀)).2.1

theorem Holding.of_disconnect (h : r.Sound) (hx : (r.disconnect c).1.Holding x) : x ≠ c ∧ r.Holding x := by
  obtain ⟨e, he, hx⟩ := hx
  obtain ⟨e₀, he₀, rfl⟩ := List.mem_map.mp he
  obtain ⟨_, _, hnot, hids, _⟩ := disconnectEnt_spec c (h.once e₀ he₀)
  exact ⟨fun hc => hnot (hc ▸ hx), e₀, he₀, hids x hx⟩

theorem find_disconnect (h : r.Sound) (c : ConnId) (n : Bytes) :
    (r.disconnect c).1.find n = (r.find n).map (fun e => (disconnectEnt c e).1) :=
  lookup_map (fun e he => (disconnectEnt_spec c (h.once e he)).1)

theorem filter_disconnect (h : r.Sound) (c : ConnId) (n : Bytes) : (r.disconnect c).2.filter (fun t => t.name = n) =
      ((r.find n).bind (fun e => (disconnectEnt c e).2)).toList := by
  refine filter_filterMap h.distinct ?_ n
  intro e he t ht
  rcases (disconnectEnt_spec c (h.once e he)).2.2.2.2 with ⟨hnone, _⟩ | ⟨hsome, _⟩
  · rw [hnone] at ht
    cases ht
  · rw [hsome] at ht
    cases ht
    rfl

theorem disconnect_reports (h : r.Sound) (c : ConnId) : r.Reports (r.disconnect c).1 (r.disconnect c).2 := by
  intro n
  rw [filter_disconnect h, owner, owner, find_disconnect h]
  cases hfind : r.find n with
  | none => exact .inl ⟨rfl, rfl⟩
  | some e =>
    have hn : e.name = n := key_of_lookup hfind
    obtain ⟨_, _, hnot, _, hchange⟩ := disconnectEnt_spec c (h.once e (mem_of_lookup hfind))
    rcases hchange with ⟨hnone, hsame⟩ | ⟨hsome, hc⟩
    · refine .inl ⟨?_, hsame⟩
      rw [bind_some, hnone]
      rfl
    · refine .inr ⟨?_, fun hsame => hnot (ownerOf_mem (hsame.trans hc))⟩
      rw [bind_some, hsome, hn, bind_some, NameEnt.owner, ← ownerOf, hc]
      rfl

theorem owner_of_mem_disconnect (h : r.Sound) {t : Transition}
    (ht : t ∈ (r.disconnect c).2) : r.owner t.name = some c := by
  obtain ⟨e, he, hsome⟩ := List.mem_filterMap.mp ht
  rcases (disconnectEnt_spec c (h.once e he)).2.2.2.2 with ⟨hnone, _⟩ | ⟨heq, hc⟩
  · rw [hnone] at hsome
    cases hsome
  · rw [heq] at hsome
    cases hsome
    rw [owner, find, lookup_of_mem h.distinct he]
    exact hc

/-! ### Unique names -/

theorem head_uniqueText (n : Nat) : (uniqueText n).head? = some (ch ':') := by
  simp [uniqueText, cstr, ch]

theorem unique_eq_lookup (r : Names) (c : ConnId) :
    r.unique c = (lookup UniqueEnt.connId c r.uniques).map UniqueEnt.unique :=
  rfl

theorem unique_allocUnique (h : r.unique c = none) (x : ConnId) :
    (r.allocUnique c).1.unique x = if x = c then some (r.allocUnique c).2 else r.unique x := by
  have hnone : r.uniques.find? (fun u => u.connId = c) = none := map_eq_none_iff.mp h
  simp only [unique, allocUnique, List.find?_append]
  by_cases hx : x = c
  · subst hx
    simp [hnone]
  · have hne : ¬ c = x := fun heq => hx heq.symm
    simp [hx, hne]

theorem nodup_allocUnique (hd : (r.uniques.map UniqueEnt.connId).Nodup)
    (h : r.unique c = none) : ((r.allocUnique c).1.uniques.map UniqueEnt.connId).Nodup := by
  rw [unique_eq_lookup, map_eq_none_iff, lookup_eq_none] at h
  simp only [allocUnique, List.map_append, List.map_singleton]
  refine List.nodup_append.mpr ⟨hd, List.nodup_singleton _, ?_⟩
  intro a ha b hb hab
  have hbc : b = c := List.mem_singleton.mp hb
  exact h (hbc ▸ hab ▸ ha)

theorem unique_disconnect (hd : (r.uniques.map UniqueEnt.connId).Nodup) (c x : ConnId) :
    (r.disconnect c).1.unique x = if x = c then none else r.unique x := by
  have hlookup := lookup_swapOut hd (k := c) x
  rw [unique_eq_lookup]
  simp only [disconnect, dropUnique, hlookup]
  split <;> rfl

end Names

/-! ## The rules of `RequestName` -/

def ReqResult.ofPlace (owned : Bool) : Option Nat → ReqResult
  | none => .exists_
  | some 0 => if owned then .alreadyOwner else .primaryOwner
  | some _ => .inQueue

def ownerYields (hs : List Holder) : Bool :=
  hs.head?.any fun o => o.flags.allowReplacement

/-- What the rules ask of a request that turns the holders `hs` into `hs'`: who said `DO_NOT_QUEUE` does not come to
wait, not the caller and not an owner it displaces; a name is taken from an owner that yields it; and the
answer is where the caller stands. -/
structure FollowsRules (hs : List Holder) (c : ConnId) (flags : ReqFlags)
    (hs' : List Holder) (result : ReqResult) : Prop where
  noQueue : flags.doNotQueue = true → c ∉ holderIds hs'.tail
  displaced : ∀ h ∈ hs'.tail, h.flags.doNotQueue = true → h.connId = c ∨ h ∈ hs.tail
  replaces : flags.replaceExisting = true → ownerYields hs = true → ownerOf hs ≠ some c →
    ownerOf hs' = some c ∧ result = .primaryOwner
  answer : result = .ofPlace (ownerOf hs = some c) (holderIndex hs' c)

theorem holderIndex_eq (hs : List Holder) (c : ConnId) :
    holderIndex hs c = (holderIds hs).findIdx? (fun x => x = c) := by
  rw [holderIndex, holderIds, List.findIdx?_map]
  rfl

theorem holderIndex_head (h : Holder) (rest : List Holder) : holderIndex (h :: rest) h.connId = some 0 := by
  simp [holderIndex, List.findIdx?_cons]

theorem followsRules_waiter {owner : Holder} {queue : List Holder} (flags : ReqFlags)
    (hi : holderIndex (owner :: queue) c = some (i + 1)) (hne : owner.connId ≠ c) (hc : c ∈ holderIds queue) :
    FollowsRules (owner :: queue) c flags
      ((owner :: queue).modify (i + 1) fun h => { h with flags := flags }) .inQueue ↔
      ¬ (flags.doNotQueue = true ∨ (flags.replaceExisting = true ∧ owner.flags.allowReplacement = true)) := by
  have hids : holderIds (queue.modify i fun h => { h with flags := flags }) = holderIds queue :=
    holderIds_modify queue i flags
  constructor
  · rintro hrules (hflag | ⟨hreplace, hyields⟩)
    · exact hrules.noQueue hflag (hids ▸ hc)
    · exact nomatch (hrules.replaces hreplace hyields (by simpa [ownerOf] using hne)).2
  · intro hno
    refine ⟨fun hflag => absurd (.inl hflag) hno, ?_, fun hr hy => absurd (.inr ⟨hr, hy⟩) hno, ?_⟩
    · intro h hh hflag
      obtain ⟨j, hj⟩ := List.mem_iff_getElem?.mp hh
      rw [List.modify_succ_cons, List.tail_cons, List.getElem?_modify] at hj
      obtain ⟨h₀, hq, rfl⟩ := map_eq_some_iff.mp hj
      split
      next hij =>
        have hat := holderIndex_eq_some hi
        simp only [holderIds, List.map_cons, List.getElem?_cons_succ, List.getElem?_map, hij, hq] at hat
        exact .inl (some.inj hat)
      · exact .inr (List.mem_of_getElem? hq)
    · rw [holderIndex_eq, holderIds_modify, ← holderIndex_eq, hi]
      rfl

theorem followsRules_stranger {owner : Holder} {queue : List Holder} (flags : ReqFlags)
    (hc : c ∉ holderIds (owner :: queue)) :
    FollowsRules (owner :: queue) c flags (requestHolders (owner :: queue) c flags).1
      (requestHolders (owner :: queue) c flags).2.1 := by
  have hidx : holderIndex (owner :: queue) c = none := holderIndex_eq_none.mpr hc
  have hne : owner.connId ≠ c := fun h => hc (by simp [holderIds, h])
  have hq : c ∉ holderIds queue := fun h => hc (List.mem_cons_of_mem _ h)
  have hfirst : ∀ rest, holderIndex ({ connId := c, flags := flags } :: rest) c = some 0 :=
    fun rest => holderIndex_head _ rest
  simp only [requestHolders, hidx]
  split
  · split
    next hflag =>
      refine ⟨fun _ => hq, fun h hh _ => .inr hh, fun _ _ _ => ⟨rfl, rfl⟩, ?_⟩
      simp [hfirst, ReqResult.ofPlace, ownerOf, hne]
    next hflag =>
      refine ⟨fun _ => hc, fun h hh hdrop => ?_, fun _ _ _ => ⟨rfl, rfl⟩, ?_⟩
      · rcases List.mem_cons.mp hh with rfl | hh
        · exact absurd hdrop hflag
        · exact .inr hh
      · simp [hfirst, ReqResult.ofPlace, ownerOf, hne]
  next hkeep =>
    have hreplaces : flags.replaceExisting = true → ownerYields (owner :: queue) = true → False :=
      fun hr hy => hkeep ⟨hr, hy⟩
    split
    · refine ⟨fun _ => hq, fun h hh _ => .inr hh, fun hr hy => (hreplaces hr hy).elim, ?_⟩
      rw [hidx]
      rfl
    next hflag =>
      refine ⟨fun h => absurd h hflag, fun h hh _ => ?_, fun hr hy => (hreplaces hr hy).elim, ?_⟩
      · rcases List.mem_append.mp hh with hh | hh
        · exact .inr hh
        · rw [List.mem_singleton.mp hh]
          exact .inl rfl
      · have hlast : holderIndex ((owner :: queue) ++ [{ connId := c, flags := flags }]) c =
            some (queue.length + 1) := by
          rw [holderIndex, List.findIdx?_append, ← holderIndex, hidx]
          simp
        rw [hlast]
        rfl

theorem requestHolders_follows_iff (hn : (holderIds hs).Nodup) (c : ConnId) (flags : ReqFlags) :
    FollowsRules hs c flags (requestHolders hs c flags).1 (requestHolders hs c flags).2.1 ↔
      ¬ (c ∈ holderIds hs.tail ∧ (flags.doNotQueue = true ∨
        (flags.replaceExisting = true ∧ ownerYields hs = true))) := by
  cases hs with
  | nil =>
    refine iff_of_true ⟨by simp [requestHolders, holderIds], by simp [requestHolders],
      by simp [ownerYields], ?_⟩ (by simp [holderIds])
    simp [requestHolders, ownerOf, holderIndex, ReqResult.ofPlace]
  | cons owner queue =>
    have hself : owner.connId ∉ holderIds queue := (List.nodup_cons.mp hn).1
    cases hidx : holderIndex (owner :: queue) c with
    | none =>
      have hc := holderIndex_eq_none.mp hidx
      exact iff_of_true (followsRules_stranger flags hc) fun h => hc (List.mem_cons_of_mem _ h.1)
    | some i =>
      have hat := holderIndex_eq_some hidx
      simp only [requestHolders, hidx]
      cases i with
      | zero =>
        obtain rfl : owner.connId = c := by simpa [holderIds] using hat
        refine iff_of_true ⟨fun _ => hself, fun h hh _ => .inr hh, fun _ _ hne => absurd rfl hne, ?_⟩ fun h => hself h.1
        have hfirst : holderIndex ({ owner with flags := flags } :: queue) owner.connId = some 0 :=
          holderIndex_head _ queue
        simp [hfirst, ownerOf, ReqResult.ofPlace]
      | succ i =>
        have hc : c ∈ holderIds queue := List.mem_of_getElem? (by simpa [holderIds] using hat)
        have hne : owner.connId ≠ c := fun h => hself (h ▸ hc)
        refine (followsRules_waiter flags hidx hne hc).trans ?_
        simp [hc, ownerYields]

theorem Names.Sound.holders_nodup {r : Names} (h : r.Sound) (n : Bytes) :
    (holderIds (r.holders n)).Nodup := by
  rw [holders]
  cases hfind : r.find n with
  | none => simp [holderIds]
  | some e => exact h.once e (mem_of_lookup hfind)

theorem Names.holders_request (r : Names) (c : ConnId) (name : Bytes) (flags : ReqFlags) :
    (r.request c name flags).1.holders name = (requestHolders (r.holders name) c flags).1 ∧
      (r.request c name flags).2.1 = (requestHolders (r.holders name) c flags).2.1 := by
  rw [← r.holders_intern name name]
  obtain ⟨e, hfind, -, -⟩ := r.find_intern name
  refine ⟨?_, rfl⟩
  rw [holders, request, find_setHolders]
  simp [hfind, holders, key_of_lookup hfind]

/-- A request follows the rules unless the caller waits for the name already and now says `DO_NOT_QUEUE`, or could
take the name from its owner: it is left where it waits. -/
theorem request_follows_rules_iff {r : Names} (h : r.Sound) (c : ConnId) (name : Bytes) (flags : ReqFlags) :
    FollowsRules (r.holders name) c flags ((r.request c name flags).1.holders name) (r.request c name flags).2.1 ↔
      ¬ (c ∈ holderIds (r.holders name).tail ∧
        (flags.doNotQueue = true ∨ (flags.replaceExisting = true ∧ ownerYields (r.holders name) = true))) := by
  obtain ⟨hholders, hresult⟩ := r.holders_request c name flags
  rw [hholders, hresult]
  exact requestHolders_follows_iff (h.holders_nodup name) c flags

def oneWaits : Names :=
  { Names.new with names := [{ name := cstr "org.x", holders := [⟨1, ⟨true, false, false⟩⟩,
    ⟨2, ⟨false, false, false⟩⟩] }] }

theorem request_follows_rules_iff_third : FollowsRules (oneWaits.holders (cstr "org.x")) 3 ⟨false, true, true⟩
      ((oneWaits.request 3 (cstr "org.x") ⟨false, true, true⟩).1.holders (cstr "org.x"))
      (oneWaits.request 3 (cstr "org.x") ⟨false, true, true⟩).2.1 := by
  refine (request_follows_rules_iff ⟨by decide, by decide⟩ 3 _ ⟨false, true, true⟩).mpr ?_
  decide

/-- The one that waits is told to wait on, with `DO_NOT_QUEUE`, and with
`REPLACE_EXISTING` against an owner that yields. -/
theorem waiter_left_waiting : (oneWaits.request 2 (cstr "org.x") ⟨false, false, true⟩).2.1 = .inQueue ∧
      2 ∈ holderIds ((oneWaits.request 2 (cstr "org.x") ⟨false, false, true⟩).1.holders (cstr "org.x")).tail ∧
      (oneWaits.request 2 (cstr "org.x") ⟨false, true, false⟩).2.1 = .inQueue ∧
      (oneWaits.request 2 (cstr "org.x") ⟨false, true, false⟩).1.owner (cstr "org.x") = some 1 := by
  decide

end SchemaInit.Dbus
