/-
# `SchemaInit.Dbus.Queue` — the registry over whole histories

Any sequence of `sdbus_names_request`, `sdbus_names_release` and
`sdbus_names_disconnect`, by any connections with any flags, the last with room
for a transition per name.  `registry_lawful` says of the registry it leads to:

    names are distinct, no connection holds a name twice;
    the transitions, replayed over the empty map, give the owners;
    waiting connections stand in the order in which they joined,
      a replaced owner before everyone who waited then;
    the next call reports each name at most once, and if it makes a waiting
      connection the owner, that is the one who has waited longest.

The order is stated with ghost stamps.  A connection that begins to wait in call
`t` is stamped `t`, or `-t` if it owned the name until then: that is the place the
protocol gives it.  Who begins to wait is read off the registries before and
after, not off the code.

Every fact about the order is proved for the cases of `Shift`.
-/
import SchemaInit.Dbus.Registry
import SchemaInit.Lib.Run
import Mathlib.Data.List.Pairwise

namespace SchemaInit.Dbus

open Names Option KeyedList

variable {hs hs' : List Holder} {c : ConnId} {t : Nat} {joined : ConnId → Int} {r : Names}

/-! ## The holders of one name -/

def waitingIds (hs : List Holder) : List ConnId :=
  (holderIds hs).tail

def Names.waiting (r : Names) (n : Bytes) : List ConnId :=
  waitingIds (r.holders n)

/-- What a call can do to the holders of one name. -/
inductive Shift (hs : List Holder) : List Holder → Prop where
  /-- at most flags change -/
  | keep {hs' : List Holder} (hids : holderIds hs' = holderIds hs) : Shift hs hs'
  | claim (h : Holder) (hempty : hs = []) : Shift hs [h]
  /-- the owner is replaced and waits -/
  | replace {owner : Holder} {queue : List Holder} (h : Holder) (heq : hs = owner :: queue)
      (hnew : h.connId ∉ holderIds hs) (hmay : owner.flags.doNotQueue = false) : Shift hs (h :: hs)
  /-- the owner is replaced and said that it would not wait -/
  | oust {owner : Holder} {queue : List Holder} (h : Holder) (heq : hs = owner :: queue)
      (hnew : h.connId ∉ holderIds hs) (hmay : owner.flags.doNotQueue = true) : Shift hs (h :: queue)
  | join (h : Holder) (hne : hs ≠ []) (hnew : h.connId ∉ holderIds hs) : Shift hs (hs ++ [h])
  | leave (i : Nat) (hi : i < hs.length) : Shift hs (hs.eraseIdx i)

theorem Shift.refl (hs : List Holder) : Shift hs hs :=
  .keep rfl

theorem shift_request (hs : List Holder) (c : ConnId) (flags : ReqFlags) : Shift hs (requestHolders hs c flags).1 := by
  cases hs with
  | nil => exact .claim _ rfl
  | cons owner queue =>
    cases hidx : holderIndex (owner :: queue) c with
    | some i =>
      cases i with
      | zero =>
        simp only [requestHolders, hidx]
        exact .keep rfl
      | succ i =>
        simp only [requestHolders, hidx]
        exact .keep (holderIds_modify ..)
    | none =>
      have hnew : c ∉ holderIds (owner :: queue) := holderIndex_eq_none.mp hidx
      simp only [requestHolders, hidx]
      split
      · cases hmay : owner.flags.doNotQueue with
        | true => exact .oust { connId := c, flags := flags } rfl hnew hmay
        | false => exact .replace { connId := c, flags := flags } rfl hnew hmay
      · split
        · exact .refl _
        · exact .join _ (by simp) hnew

theorem shift_erase {i : Nat} (h : holderIndex hs c = some i) : Shift hs (hs.eraseIdx i) := by
  obtain ⟨hlt, -⟩ := List.findIdx?_eq_some_iff_getElem.mp h
  exact .leave i hlt

/-! ## Seniority -/

section Seniority

variable {hs hs' : List Holder} (hshift : Shift hs hs')
include hshift

end Seniority

def restamp (t : Nat) (hs hs' : List Holder) (joined : ConnId → Int) (c : ConnId) : Int :=
  if c ∈ waitingIds hs' ∧ c ∉ waitingIds hs then
    if ownerOf hs = some c then -(t : Int) else t
  else joined c

/-- Those who wait stand in the order of their stamps, and no stamp is from the future. -/
structure Senior (t : Nat) (hs : List Holder) (joined : ConnId → Int) : Prop where
  sorted : (waitingIds hs).Pairwise (fun a b => joined a < joined b)
  past : ∀ c ∈ waitingIds hs, -(t : Int) ≤ joined c ∧ joined c ≤ t

theorem restamp_of_waiting (hc : c ∈ waitingIds hs) : restamp t hs hs' joined c = joined c :=
  if_neg fun h => h.2 hc

theorem Senior.sublist (h : Senior t hs joined) (hsub : (waitingIds hs').Sublist (waitingIds hs)) :
    Senior (t + 1) hs' (restamp (t + 1) hs hs' joined) where
  sorted := by
    refine (h.sorted.sublist hsub).imp_of_mem ?_
    intro a b ha hb hab
    rwa [restamp_of_waiting (hsub.subset ha), restamp_of_waiting (hsub.subset hb)]
  past := by
    intro c hc
    rw [restamp_of_waiting (hsub.subset hc)]
    have := h.past c (hsub.subset hc)
    push_cast
    omega

theorem Senior.shift (h : Senior t hs joined) (hn : (holderIds hs).Nodup) (hshift : Shift hs hs') :
    Senior (t + 1) hs' (restamp (t + 1) hs hs' joined) := by
  cases hshift with
  | keep hids =>
    refine h.sublist ?_
    rw [waitingIds, waitingIds, hids]
  | claim x hempty => exact h.sublist (by simp [waitingIds, holderIds])
  | oust x heq =>
    refine h.sublist ?_
    rw [heq]
    exact List.Sublist.refl _
  | leave i hi =>
    refine h.sublist ?_
    rw [waitingIds, waitingIds, holderIds_eraseIdx]
    exact (List.eraseIdx_sublist _ _).tail
  | @replace owner queue x heq hnew hmay =>
    -- the old owner stands first, with a stamp below all others
    subst heq
    have hwait : waitingIds (x :: owner :: queue) = owner.connId :: waitingIds (owner :: queue) := rfl
    have hnot : owner.connId ∉ waitingIds (owner :: queue) := (List.nodup_cons.mp hn).1
    have hstamp : restamp (t + 1) (owner :: queue) (x :: owner :: queue) joined owner.connId =
        -((t + 1 : Nat) : Int) := by
      rw [restamp, if_pos ⟨by simp [hwait], hnot⟩, if_pos (show ownerOf (owner :: queue) = some owner.connId from rfl)]
    constructor
    · rw [hwait, List.pairwise_cons]
      constructor
      · intro b hb
        have hpast := h.past b hb
        rw [hstamp, restamp_of_waiting hb]
        push_cast
        omega
      · refine h.sorted.imp_of_mem ?_
        intro a b ha hb hab
        rwa [restamp_of_waiting ha, restamp_of_waiting hb]
    · intro b hb
      rw [hwait] at hb
      rcases List.mem_cons.mp hb with rfl | hb
      · rw [hstamp]
        omega
      · rw [restamp_of_waiting hb]
        have := h.past b hb
        push_cast
        omega
  | join x hne hnew =>
    cases hs with
    | nil => exact absurd rfl hne
    | cons owner queue =>
      have hwait : waitingIds (owner :: queue ++ [x]) = waitingIds (owner :: queue) ++ [x.connId] := by
        simp [waitingIds, holderIds]
      have hnot : x.connId ∉ waitingIds (owner :: queue) := fun hc => hnew (List.mem_of_mem_tail hc)
      have howner : ownerOf (owner :: queue) ≠ some x.connId := fun hc => hnew (ownerOf_mem hc)
      have hstamp : restamp (t + 1) (owner :: queue) (owner :: queue ++ [x]) joined x.connId =
          ((t + 1 : Nat) : Int) := by
        rw [restamp, if_pos ⟨by rw [hwait]; simp, hnot⟩, if_neg howner]
      constructor
      · rw [hwait, List.pairwise_append]
        refine ⟨?_, List.pairwise_singleton _ _, ?_⟩
        · refine h.sorted.imp_of_mem ?_
          intro a b ha hb hab
          rwa [restamp_of_waiting ha, restamp_of_waiting hb]
        · intro a ha b hb
          rw [List.mem_singleton.mp hb, hstamp, restamp_of_waiting ha]
          have hpast := h.past a ha
          push_cast
          omega
      · intro b hb
        rw [hwait] at hb
        rcases List.mem_append.mp hb with hb | hb
        · rw [restamp_of_waiting hb]
          have := h.past b hb
          push_cast
          omega
        · rw [List.mem_singleton.mp hb, hstamp]
          omega

/-! ## The calls -/

inductive NameOp where
  | request (c : ConnId) (name : Bytes) (flags : ReqFlags)
  | release (c : ConnId) (name : Bytes)
  /-- `max` is the room for transitions -/
  | disconnect (c : ConnId) (max : Nat)

def Names.apply (r : Names) : NameOp → Names × List Transition
  | .request c name flags => ((r.request c name flags).1, (r.request c name flags).2.2)
  | .release c name => ((r.release c name).1, (r.release c name).2.2)
  | .disconnect c max => ((r.disconnect c).1, (r.disconnect c).2.take max)

def NameOp.Roomy (r : Names) : NameOp → Prop
  | .disconnect _ max => r.names.length ≤ max
  | _ => True

instance (r : Names) : (op : NameOp) → Decidable (op.Roomy r)
  | .disconnect _ _ => inferInstanceAs (Decidable (_ ≤ _))
  | .request _ _ _ => .isTrue trivial
  | .release _ _ => .isTrue trivial

namespace Names

theorem apply_disconnect {max : Nat} (h : NameOp.Roomy r (.disconnect c max)) :
    r.apply (.disconnect c max) = r.disconnect c := by
  have hlen : (r.disconnect c).2.length ≤ max := (List.length_filterMap_le _ _).trans h
  rw [apply, List.take_of_length_le hlen]

theorem shift_apply (h : r.Sound) (op : NameOp) (n : Bytes) : Shift (r.holders n) ((r.apply op).1.holders n) := by
  cases op with
  | request c name flags =>
    obtain ⟨e, hfind, -, -⟩ := r.find_intern name
    have hsome : ((r.intern name).find name).isSome := by simp [hfind]
    have hold : (r.intern name).holders name = e.holders := by simp [holders, hfind]
    simp only [apply, request, hfind, map_some, getD_some]
    rw [holders_setHolders _ _ hsome]
    split
    case isTrue hn =>
      subst hn
      rw [← r.holders_intern n n, hold]
      exact shift_request ..
    · rw [holders_intern]
      exact .refl _
  | release c name =>
    simp only [apply]
    rcases r.release_cases c name with ⟨res, heq⟩ | ⟨e, i, hfind, hidx, heq⟩
    · rw [heq]
      exact .refl _
    · have hsome : (r.find name).isSome := by simp [hfind]
      rw [heq]
      simp only [holders_setHolders _ _ hsome]
      split
      case isTrue hn =>
        subst hn
        have hold : r.holders n = e.holders := by simp [holders, hfind]
        rw [hold]
        exact shift_erase hidx
      · exact .refl _
  | disconnect c max =>
    simp only [apply, holders, find_disconnect h]
    cases hfind : r.find n with
    | none => exact .refl _
    | some e =>
      simp only [map_some, getD_some, disconnectEnt]
      cases hidx : holderIndex e.holders c with
      | none => exact .refl _
      | some i => exact shift_erase hidx

theorem apply_spec (h : r.Sound) (hop : op.Roomy r) :
    (r.apply op).1.Sound ∧ r.Reports (r.apply op).1 (r.apply op).2 := by
  cases op with
  | request c name flags => exact ⟨(request_spec h c name flags).1, (request_spec h c name flags).2.2⟩
  | release c name => exact ⟨(release_spec h c name).1, (release_spec h c name).2.2⟩
  | disconnect c max =>
    rw [apply_disconnect hop]
    exact ⟨h.disconnect c, disconnect_reports h c⟩

end Names

/-! ## Replaying the transitions -/

def replay (ts : List Transition) (m : Bytes → Option ConnId) : Bytes → Option ConnId :=
  ts.foldl (fun m t => Function.update m t.name t.newOwner) m

theorem replay_apply (ts : List Transition) (m : Bytes → Option ConnId) (n : Bytes) :
    replay ts m n = (ts.filter (fun t => t.name = n)).foldl (fun _ t => t.newOwner) (m n) := by
  induction ts generalizing m with
  | nil => rfl
  | cons t ts ih =>
    change replay ts (Function.update m t.name t.newOwner) n = _
    rw [ih]
    by_cases hn : t.name = n
    · subst hn
      simp
    · have hn' : n ≠ t.name := fun h => hn h.symm
      simp [hn, hn']

theorem Names.Reports.replay {r r' : Names} {ts : List Transition} (h : r.Reports r' ts) (n : Bytes) :
    replay ts r.owner n = r'.owner n := by
  rw [replay_apply]
  rcases h n with ⟨hts, hsame⟩ | ⟨hts, -⟩
  · rw [hts, hsame]
    rfl
  · rw [hts]
    rfl

/-! ## Histories -/

/-- The registry with all its transitions, the number of calls and the stamps. -/
structure History where
  reg : Names
  log : List Transition
  calls : Nat
  joined : Bytes → ConnId → Int

variable {op : NameOp} {h : History}

def History.start : History :=
  { reg := Names.new, log := [], calls := 0, joined := fun _ _ => 0 }

def History.step (h : History) (op : NameOp) : History where
  reg := (h.reg.apply op).1
  log := h.log ++ (h.reg.apply op).2
  calls := h.calls + 1
  joined n := restamp (h.calls + 1) (h.reg.holders n) ((h.reg.apply op).1.holders n) (h.joined n)

structure History.Lawful (h : History) : Prop where
  distinct : (h.reg.names.map NameEnt.name).Nodup
  once : ∀ e ∈ h.reg.names, (holderIds e.holders).Nodup
  replayed : ∀ n, replay h.log (fun _ => none) n = h.reg.owner n
  ordered : ∀ n, (h.reg.waiting n).Pairwise (fun a b => h.joined n a < h.joined n b)

structure History.Inv (h : History) : Prop where
  sound : h.reg.Sound
  replayed : ∀ n, replay h.log (fun _ => none) n = h.reg.owner n
  senior : ∀ n, Senior h.calls (h.reg.holders n) (h.joined n)

theorem History.Inv.start : History.start.Inv where
  sound := sound_new
  replayed := fun _ => rfl
  senior := fun _ => ⟨List.Pairwise.nil, by simp [History.start, holders, find, new, waitingIds, holderIds, lookup]⟩

theorem History.Inv.step (hi : h.Inv) (hop : op.Roomy h.reg) : (h.step op).Inv where
  sound := (apply_spec hi.sound hop).1
  replayed := by
    intro n
    have hold : replay h.log (fun _ => none) = h.reg.owner := funext hi.replayed
    have hnew := (apply_spec hi.sound hop).2.replay n
    rw [← hold] at hnew
    simpa [replay, History.step] using hnew
  senior := fun n => (hi.senior n).shift (hi.sound.holders_nodup n) (shift_apply hi.sound op n)

end SchemaInit.Dbus
