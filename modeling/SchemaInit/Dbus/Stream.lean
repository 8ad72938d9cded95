/-
# `SchemaInit.Dbus.Stream` — a client's messages and the reads they come in

`process_inbound` takes messages off the front of the buffer until there is no whole
one left.  How the stream was cut into reads makes no difference to that: what the
parser says of a message does not change with what follows it (`drained_append`).

It does make a difference after a corrupt header.  Then the buffer is dropped, and
what is in it at that moment depends on the reads: the same good message is dropped
if it came with the bad one, and handled if it came later.
-/
import SchemaInit.Dbus.Grouping
import SchemaInit.Dbus.Parse
import Mathlib.Data.List.Induction

namespace SchemaInit.Dbus

open List

variable {buf more pre post s t : Bytes} {m : WireMsg} {ds : List Bytes}

/-! ## The loop -/

theorem length_drop_lt (h : sdbusWireParse buf = .complete m) : (buf.drop m.totalLen).length < buf.length := by
  have hlong := le_totalLen h
  have hfits := (sdbusWireParse_complete h).2.2
  rw [length_drop]
  omega

/-- A message as `handle_message` gets it: the parsed header, and the bytes. -/
abbrev Handed := WireMsg × Bytes

/-- The loop of `process_inbound` on the bytes alone: the messages it hands on and what is
left, `none` after a corrupt header. -/
def drained (buf : Bytes) : List Handed × Option Bytes :=
  match h : sdbusWireParse buf with
  | .incomplete => ([], some buf)
  | .corrupt => ([], none)
  | .complete m =>
    let r := drained (buf.drop m.totalLen)
    ((m, buf.take m.totalLen) :: r.1, r.2)
termination_by buf.length
decreasing_by exact length_drop_lt h

/-- `on_readable` of an authenticated client, on what was handed on so far and its buffer. -/
def readOne (r : List Handed × Bytes) (data : Bytes) : List Handed × Bytes :=
  (r.1 ++ (drained (r.2 ++ data)).1, (drained (r.2 ++ data)).2.getD [])

def handed (ds : List Bytes) : List Handed := (ds.foldl readOne ([], [])).1

theorem drained_incomplete (h : sdbusWireParse buf = .incomplete) : drained buf = ([], some buf) := by
  rw [drained]
  split <;> simp_all

theorem drained_corrupt (h : sdbusWireParse buf = .corrupt) : drained buf = ([], none) := by
  rw [drained]
  split <;> simp_all

theorem drained_complete (h : sdbusWireParse buf = .complete m) : drained buf =
    ((m, buf.take m.totalLen) :: (drained (buf.drop m.totalLen)).1, (drained (buf.drop m.totalLen)).2) := by
  rw [drained]
  split <;> simp_all

theorem drained_append (buf more : Bytes) : drained (buf ++ more) = match drained buf with
    | (ms, none) => (ms, none)
    | (ms, some rest) => (ms ++ (drained (rest ++ more)).1, (drained (rest ++ more)).2) := by
  generalize hn : buf.length = n
  induction n using Nat.strongRecOn generalizing buf with
  | _ n ih =>
    subst hn
    cases hp : sdbusWireParse buf with
    | incomplete => simp [drained_incomplete hp]
    | corrupt =>
      have happ : sdbusWireParse (buf ++ more) = .corrupt := by rw [sdbusWireParse_append (by simp [hp]), hp]
      simp [drained_corrupt hp, drained_corrupt happ]
    | complete m =>
      have happ : sdbusWireParse (buf ++ more) = .complete m := by rw [sdbusWireParse_append (by simp [hp]), hp]
      have hfits := (sdbusWireParse_complete hp).2.2
      rw [drained_complete hp, drained_complete happ, take_append_of_le_length hfits,
        drop_append_of_le_length hfits, ih _ (length_drop_lt hp) _ rfl]
      cases hr : drained (buf.drop m.totalLen) with
      | mk ms rest => cases rest <;> simp

theorem drained_more {ms : List Handed} {rest : Bytes} (h : drained buf = (ms, some rest)) (more : Bytes) :
    drained (buf ++ more) = (ms ++ (drained (rest ++ more)).1, (drained (rest ++ more)).2) := by
  rw [drained_append, h]

/-! ## Corrupt headers -/

inductive Spoiled : Bytes → Prop
  | here {buf : Bytes} (h : sdbusWireParse buf = .corrupt) : Spoiled buf
  | later {buf : Bytes} {m : WireMsg} (h : sdbusWireParse buf = .complete m) (hrest : Spoiled (buf.drop m.totalLen)) :
      Spoiled buf

theorem spoiled_iff : Spoiled buf ↔ (drained buf).2 = none := by
  constructor
  · intro h
    induction h with
    | here h => rw [drained_corrupt h]
    | later h _ ih => rw [drained_complete h, ih]
  · intro h
    generalize hn : buf.length = n
    induction n using Nat.strongRecOn generalizing buf with
    | _ n ih =>
      subst hn
      cases hp : sdbusWireParse buf with
      | incomplete =>
        rw [drained_incomplete hp] at h
        cases h
      | corrupt => exact .here hp
      | complete m =>
        rw [drained_complete hp] at h
        exact .later hp (ih _ (length_drop_lt hp) h rfl)

theorem drained_spoiled (h : Spoiled buf) (more : Bytes) : drained (buf ++ more) = ((drained buf).1, none) := by
  rw [spoiled_iff] at h
  rw [drained_append]
  cases hr : drained buf with
  | mk ms rest =>
    rw [hr] at h
    obtain rfl : rest = none := h
    rfl

theorem Spoiled.append (h : Spoiled buf) (more : Bytes) : Spoiled (buf ++ more) := by
  rw [spoiled_iff, drained_spoiled h]

theorem foldl_readOne (ds : List Bytes) {pre rest : Bytes} {ms : List Handed} (h : drained pre = (ms, some rest))
    (hs : ¬ Spoiled (pre ++ ds.flatten)) :
    drained (pre ++ ds.flatten) = ((ds.foldl readOne (ms, rest)).1, some (ds.foldl readOne (ms, rest)).2) := by
  induction ds generalizing pre rest ms with
  | nil => simpa using h
  | cons data ds ih =>
    rw [flatten_cons, ← append_assoc] at hs ⊢
    have hnext := drained_more h data
    cases hr : (drained (rest ++ data)).2 with
    | none => exact absurd ((spoiled_iff.mpr (by rw [hnext, hr])).append _) hs
    | some rest' =>
      rw [hr] at hnext
      rw [ih hnext hs, foldl_cons, readOne, hr]
      rfl

/-! ## Condition and reads -/

def NoneBehind (s : Bytes) : Prop :=
  ∀ pre post m, s = pre ++ post → Spoiled pre → sdbusWireParse post ≠ .complete m

theorem silent_reads (hs : NoneBehind s) (ms : List Handed) (hsplit : s = pre ++ buf ++ ds.flatten) (hpre : Spoiled pre)
    (hbuf : sdbusWireParse buf = .incomplete) : (ds.foldl readOne (ms, buf)).1 = ms := by
  induction ds generalizing pre buf with
  | nil => rfl
  | cons data ds ih =>
    rw [flatten_cons] at hsplit
    rw [foldl_cons, readOne]
    cases hp : sdbusWireParse (buf ++ data) with
    | incomplete =>
      rw [drained_incomplete hp, append_nil]
      exact ih (by rw [hsplit]; simp) hpre hp
    | corrupt =>
      -- dropped: the next read starts a new buffer
      rw [drained_corrupt hp, append_nil]
      have hnext : s = pre ++ (buf ++ data) ++ [] ++ ds.flatten := by rw [hsplit]; simp
      exact ih hnext (hpre.append _) rfl
    | complete m =>
      have happ : sdbusWireParse (buf ++ (data ++ ds.flatten)) = .complete m := by
        rw [← append_assoc, sdbusWireParse_append (by simp [hp]), hp]
      exact absurd happ (hs pre _ m (by rw [hsplit, append_assoc]) hpre)

theorem sdbusWireParse_nil : sdbusWireParse [] = .incomplete := by decide

theorem handed_of_noneBehind (hs : NoneBehind s) (hds : ds.flatten = s) : handed ds = (drained s).1 := by
  have hrun : ∀ (ds : List Bytes) (pre rest : Bytes) (ms : List Handed), drained pre = (ms, some rest) →
      s = pre ++ ds.flatten → (ds.foldl readOne (ms, rest)).1 = (drained s).1 := by
    intro ds
    induction ds with
    | nil =>
      intro pre rest ms h hsplit
      rw [hsplit, flatten_nil, append_nil, h]
      rfl
    | cons data ds ih =>
      intro pre rest ms h hsplit
      rw [flatten_cons, ← append_assoc] at hsplit
      have hnext := drained_more h data
      rw [foldl_cons, readOne]
      cases hr : (drained (rest ++ data)).2 with
      | some rest' => exact ih _ _ _ (hr ▸ hnext) hsplit
      | none =>
        have hspoiled : Spoiled (pre ++ data) := spoiled_iff.mpr (by rw [hnext, hr])
        rw [hsplit, drained_spoiled hspoiled, hnext]
        exact silent_reads hs _ (by rw [hsplit]; simp) hspoiled sdbusWireParse_nil
  exact hrun ds [] [] [] (drained_incomplete sdbusWireParse_nil) hds.symm

/-! ## Two cuts that differ -/

/-- Of eight offsets in a row one starts no message: the lengths of a message are small, so
there is a small byte among its first eight. -/
theorem exists_bad (t : Bytes) : ∃ k < 8, ¬ GoodStart (t.drop k) := by
  have hbyte (k i : Nat) : byteAt (t.drop k) i = byteAt t (k + i) := by simp [byteAt]
  have hsmall (k : Nat) (h : (byteAt t k).toNat ≤ 8) : ¬ GoodStart (t.drop k) := by
    intro hgood
    have hfirst := hgood.1
    rw [hbyte, Nat.add_zero] at hfirst
    rcases hfirst with hfirst | hfirst
    · rw [hfirst] at h
      exact absurd h (by decide)
    · rw [hfirst] at h
      exact absurd h (by decide)
  by_cases hgood : GoodStart t
  · have hlen : rdU32 t 4 (decide (byteAt t 0 = ch 'l')) ≤ 2 ^ 27 := hgood.2.2.1
    by_cases hle : byteAt t 0 = ch 'l'
    · refine ⟨4 + 3, by omega, hsmall (4 + 3) ?_⟩
      simp only [hle, decide_true, rdU32, if_true] at hlen
      omega
    · refine ⟨4 + 0, by omega, hsmall (4 + 0) ?_⟩
      simp only [hle, decide_false, rdU32, Bool.false_eq_true, if_false] at hlen
      omega
  · exact ⟨0, by omega, hgood⟩

theorem corrupt_of_bad (h : ¬ GoodStart t) (hlen : 16 ≤ t.length) : sdbusWireParse t = .corrupt := by
  rw [sdbusWireParse_eq, if_neg (by omega), if_pos h]

theorem reads_away (h : ¬ GoodStart t) (hlen : 16 ≤ t.length) :
    ∃ ds, Cut t ds ∧ ∀ ms, ds.foldl readOne (ms, []) = (ms, []) := by
  generalize hn : t.length = n
  induction n using Nat.strongRecOn generalizing t with
  | _ n ih =>
    by_cases hshort : t.length ≤ 65536
    · refine ⟨[t], by simpa [Cut] using ⟨ne_nil_of_length_pos (by omega), hshort⟩, fun ms => ?_⟩
      simp [readOne, drained_corrupt (corrupt_of_bad h hlen)]
    · obtain ⟨k, hk, hbad⟩ := exists_bad (t.drop 16)
      rw [drop_drop] at hbad
      have htake : (t.take (16 + k)).length = 16 + k := length_take_of_le (by omega)
      have hfirst : ¬ GoodStart (t.take (16 + k)) := by
        rwa [← goodStart_append _ (t.drop (16 + k)) (by omega), take_append_drop]
      obtain ⟨ds, hcut, hds⟩ := ih (t.drop (16 + k)).length (by rw [length_drop]; omega) hbad
        (by rw [length_drop]; omega) rfl
      refine ⟨t.take (16 + k) :: ds, ?_, fun ms => ?_⟩
      · have hcons := cut_cons (t.take (16 + k)) (ne_nil_of_length_pos (by omega)) (by omega) hcut
        rwa [take_append_drop] at hcons
      · rw [foldl_cons, readOne, nil_append, drained_corrupt (corrupt_of_bad hfirst (by omega))]
        simpa using hds ms

theorem Cut.append {ds' : List Bytes} (h : Cut pre ds) (h' : Cut post ds') : Cut (pre ++ post) (ds ++ ds') :=
  ⟨by rw [flatten_append, h.1, h'.1], forall_mem_append.mpr ⟨h.2, h'.2⟩⟩

theorem Spoiled.first (h : Spoiled pre) :
    ∃ clean x more, pre = clean ++ x :: more ∧ ¬ Spoiled clean ∧ Spoiled (clean ++ [x]) := by
  induction pre using List.reverseRecOn with
  | nil =>
    rw [spoiled_iff, drained_incomplete sdbusWireParse_nil] at h
    cases h
  | append_singleton l y ih =>
    by_cases hl : Spoiled l
    · obtain ⟨clean, x, more, rfl, hclean, hx⟩ := ih hl
      exact ⟨clean, x, more ++ [y], by simp, hclean, hx⟩
    · exact ⟨l, y, [], rfl, hl, h⟩

theorem Spoiled.dropped (h : Spoiled pre) : ∃ ds, Cut pre ds ∧ ds.foldl readOne ([], []) = ((drained pre).1, []) := by
  obtain ⟨clean, x, more, rfl, hclean, hx⟩ := h.first
  have hcut := cut_bytes clean
  obtain ⟨ms, rest, hstate⟩ : ∃ ms rest, (clean.map fun b => [b]).foldl readOne ([], []) = (ms, rest) := ⟨_, _, rfl⟩
  have hread := foldl_readOne (clean.map fun b => [b]) (drained_incomplete sdbusWireParse_nil) (by rwa [hcut.1])
  rw [hcut.1, hstate, nil_append] at hread
  -- the read with the byte in it, and what else comes with it
  have hone (more : Bytes) : readOne (ms, rest) (x :: more) = ((drained (clean ++ [x])).1, []) := by
    have hall := drained_spoiled hx more
    rw [append_assoc, singleton_append, drained_more hread] at hall
    obtain ⟨hms, hnone⟩ := Prod.mk.inj hall
    exact Prod.ext hms (congrArg (·.getD []) hnone)
  have hall : (drained (clean ++ x :: more)).1 = (drained (clean ++ [x])).1 := by
    rw [← singleton_append, ← append_assoc, drained_spoiled hx]
  by_cases hshort : more.length ≤ 65535
  · refine ⟨clean.map (fun b => [b]) ++ [x :: more], hcut.append (by simp [Cut]; omega), ?_⟩
    rw [foldl_append, hstate, hall]
    exact hone more
  · obtain ⟨k, hk, hbad⟩ := exists_bad more
    obtain ⟨ds, hds, haway⟩ := reads_away hbad (by rw [length_drop]; omega)
    have hrest := hcut.append (cut_cons (x :: more.take k) (by simp) (by simp; omega) hds)
    rw [cons_append, take_append_drop] at hrest
    refine ⟨_, hrest, ?_⟩
    rw [foldl_append, hstate, foldl_cons, hone, haway, hall]

theorem foldl_readOne_shift (ms : List Handed) (ds : List Bytes) (r : List Handed × Bytes) :
    ds.foldl readOne (ms ++ r.1, r.2) = (ms ++ (ds.foldl readOne r).1, (ds.foldl readOne r).2) := by
  induction ds generalizing r with
  | nil => rfl
  | cons data ds ih => rw [foldl_cons, foldl_cons, ← ih, readOne, readOne, append_assoc]

theorem Spoiled.handed (h : Spoiled pre) (hs : NoneBehind post) :
    ∃ ds, Cut (pre ++ post) ds ∧ Dbus.handed ds = (drained pre).1 ++ (drained post).1 := by
  obtain ⟨ds, hcut, hds⟩ := h.dropped
  have hpost := cut_bytes post
  refine ⟨ds ++ post.map (fun b => [b]), hcut.append hpost, ?_⟩
  have hshift := foldl_readOne_shift (drained pre).1 (post.map fun b => [b]) ([], [])
  rw [append_nil] at hshift
  rw [Dbus.handed, foldl_append, hds, hshift, ← handed_of_noneBehind hs hpost.1]
  rfl

/-- With the last message that starts behind it a corrupt header makes a difference: the
message is there or not as the reads are cut before or after its first byte. -/
theorem cuts_differ (hsplit : s = pre ++ post) (h : Spoiled pre) (hm : sdbusWireParse post = .complete m) :
    ∃ ds ds', Cut s ds ∧ Cut s ds' ∧ handed ds ≠ handed ds' := by
  generalize hn : post.length = n
  induction n using Nat.strongRecOn generalizing pre post m with
  | _ n ih =>
    subst hn
    by_cases hlast : ∀ u v m', post = u ++ v → u ≠ [] → sdbusWireParse v ≠ .complete m'
    · have hlong := (sdbusWireParse_complete hm).1
      obtain ⟨y, tail, rfl⟩ := exists_cons_of_length_pos (show 0 < post.length by omega)
      have hnone : NoneBehind (y :: tail) := fun u v m' hv hu => hlast u v m' hv (by
        rintro rfl
        rw [spoiled_iff, drained_incomplete sdbusWireParse_nil] at hu
        cases hu)
      have htail : (drained tail).1 = [] := by
        cases hp : sdbusWireParse tail with
        | incomplete => rw [drained_incomplete hp]
        | corrupt => rw [drained_corrupt hp]
        | complete m' => exact absurd hp (hlast [y] tail m' rfl (by simp))
      obtain ⟨ds, hcut, hds⟩ := h.handed hnone
      have hnone' : NoneBehind tail := fun u v m' hv _ => hlast (y :: u) v m' (by rw [hv]; rfl) (by simp)
      obtain ⟨ds', hcut', hds'⟩ := (h.append [y]).handed hnone'
      refine ⟨ds, ds', hsplit ▸ hcut, by rw [hsplit]; simpa using hcut', fun heq => ?_⟩
      rw [hds, hds', htail, drained_spoiled h, drained_complete hm] at heq
      simp at heq
    · push Not at hlast
      obtain ⟨u, v, m', rfl, hu, hv⟩ := hlast
      refine ih v.length ?_ (by rw [hsplit, append_assoc]) (h.append u) hv rfl
      have := length_pos_of_ne_nil hu
      rw [length_append]
      omega

/-- For every stream: all cuts into reads hand the same messages to `handle_message`, exactly
if no message starts behind a corrupt header. -/
theorem same_messages_iff (s : Bytes) : (∀ ds ds', Cut s ds → Cut s ds' → handed ds = handed ds') ↔ NoneBehind s := by
  constructor
  · intro hsame pre post m hsplit hpre hm
    obtain ⟨ds, ds', hcut, hcut', hne⟩ := cuts_differ hsplit hpre hm
    exact hne (hsame ds ds' hcut hcut')
  · intro hs ds ds' hcut hcut'
    rw [handed_of_noneBehind hs hcut.1, handed_of_noneBehind hs hcut'.1]

def badHeader : Bytes := List.replicate 16 0

def bareCall : Bytes := [ch 'l', 1, 0, 1, 0, 0, 0, 0, 1, 0, 0, 0, 0, 0, 0, 0]

theorem dropped_with_bad_header :
    Cut (badHeader ++ bareCall) [badHeader ++ bareCall] ∧ Cut (badHeader ++ bareCall) [badHeader, bareCall] ∧
      handed [badHeader ++ bareCall] = [] ∧ (handed [badHeader, bareCall]).map Prod.snd = [bareCall] := by
  have hbad : sdbusWireParse badHeader = .corrupt := by decide
  have hboth : sdbusWireParse (badHeader ++ bareCall) = .corrupt := by decide
  obtain ⟨m, hm, hlen⟩ : ∃ m, sdbusWireParse bareCall = .complete m ∧ m.totalLen = 16 := ⟨_, rfl, rfl⟩
  have hrest : bareCall.drop 16 = [] := rfl
  refine ⟨by simp [Cut, badHeader, bareCall], by simp [Cut, badHeader, bareCall], ?_, ?_⟩
  · simp [handed, readOne, drained_corrupt hboth]
  · simp only [handed, foldl_cons, foldl_nil, readOne, nil_append, drained_corrupt hbad, Option.getD_none,
      drained_complete hm, hlen, hrest, drained_incomplete sdbusWireParse_nil]
    rfl

end SchemaInit.Dbus
