/-
# `SchemaInit.Dbus.Ledger` — who owns which descriptor

The broker's descriptors stand in slots: the socket of a connection, what arrived
with it and is not used yet, what is queued to it, what a held message carries,
and the socket to PID 1.  The books are in order when every number in a slot is
open and stands in no other, and every open number that the broker did not start
with stands in one.  `Ledger` says this as an equation for each number, with two
lists for the moments in between: `hand` are open numbers that are in no slot,
`twice` are numbers that stand in one slot more than they should.

This file has the rules for the primitives: opening, closing, queueing, and the
changes of a connection's record; `Work` keeps the books by these rules.  What a
held message carries is empty throughout: a held message that carries something
is how the books get out of order.
-/
import SchemaInit.Dbus.RefineStep

namespace SchemaInit.Dbus

open Conn List KeyedList

def Conn.slots (c : Conn) : List Int :=
  c.fd :: (c.pendingFds ++ c.oq.flatMap OutChunk.fds)

def Conn.holdings (c : Conn) : ConnId × Int × List Int × List OutChunk :=
  (c.id, c.fd, c.pendingFds, c.oq)

/-- The descriptors of a chunk went with its first byte. -/
def Conn.Unsent (c : Conn) : Prop :=
  ∀ k ∈ c.oq, k.off ≠ 0 → k.fds = []

def opens (t : FdTable Nat) (fd : Int) : Nat :=
  if (t.get fd).isSome then 1 else 0

namespace Broker

/-- All places where the broker keeps a descriptor. -/
def slots (b : Broker) : List Int :=
  b.conns.flatMap Conn.slots ++ ((allHeld b.acts).flatMap HeldMsg.fds ++ b.reportFd.toList)

/-- `hand` are open numbers in no place, `twice` those that stand in one place too many. -/
structure Ledger (base : FdTable Nat) (b : Broker) (hand twice : List Int) : Prop where
  balance : ∀ fd, b.slots.count fd + hand.count fd + opens base fd = opens b.table fd + twice.count fd
  clean : b.badCloses = []
  nodup : b.ids.Nodup
  room : ∀ c ∈ b.conns, c.pendingFds.length ≤ maxPendingFds
  unsent : ∀ c ∈ b.conns, c.Unsent
  noneHeld : ∀ m ∈ allHeld b.acts, m.fds = []

variable {base : FdTable Nat} {b b' : Broker} {hand twice fds : List Int}

theorem count_slots (b : Broker) (fd : Int) : b.slots.count fd = (b.conns.map (fun c => c.slots.count fd)).sum +
      (((allHeld b.acts).flatMap HeldMsg.fds).count fd + b.reportFd.toList.count fd) := by
  rw [slots, count_append, count_append, count_flatMap]
  rfl

/-! ## Rules of the books -/

theorem Ledger.borrow (h : Ledger base b hand twice) (fds : List Int) : Ledger base b (fds ++ hand) (fds ++ twice) where
  balance := by
    intro fd
    have := h.balance fd
    simp only [count_append]
    omega
  __ := h

theorem Ledger.repay (h : Ledger base b (fds ++ hand) (fds ++ twice)) : Ledger base b hand twice where
  balance := by
    intro fd
    have := h.balance fd
    simp only [count_append] at this
    omega
  __ := h

theorem Ledger.same (h : Ledger base b hand twice)
    (hconns : b'.conns.map Conn.holdings = b.conns.map Conn.holdings) (hacts : b'.acts = b.acts)
    (htable : b'.table = b.table) (hclean : b'.badCloses = b.badCloses) (hreport : b'.reportFd = b.reportFd) :
    Ledger base b' hand twice := by
  have hmem : ∀ c' ∈ b'.conns, ∃ c ∈ b.conns, c.holdings = c'.holdings := by
    intro c' hc'
    have : c'.holdings ∈ b.conns.map Conn.holdings := hconns ▸ mem_map_of_mem hc'
    exact mem_map.mp this
  have hslots : b'.slots = b.slots := by
    have hflat : ∀ l : List Conn, l.flatMap Conn.slots =
        (l.map Conn.holdings).flatMap (fun x => x.2.1 :: (x.2.2.1 ++ x.2.2.2.flatMap OutChunk.fds)) := by
      intro l
      rw [flatMap_map]
      rfl
    rw [slots, slots, hflat, hconns, ← hflat, hacts, hreport]
  constructor
  · intro fd
    rw [hslots, htable]
    exact h.balance fd
  · rw [hclean]
    exact h.clean
  · have hids := congrArg (List.map Prod.fst) hconns
    simp only [map_map] at hids
    show (b'.conns.map Conn.id).Nodup
    rw [show b'.conns.map Conn.id = b.conns.map Conn.id from hids]
    exact h.nodup
  · intro c' hc'
    obtain ⟨c, hc, heq⟩ := hmem c' hc'
    simp only [Conn.holdings, Prod.mk.injEq] at heq
    rw [← heq.2.2.1]
    exact h.room c hc
  · intro c' hc'
    obtain ⟨c, hc, heq⟩ := hmem c' hc'
    simp only [Conn.holdings, Prod.mk.injEq] at heq
    unfold Conn.Unsent
    rw [← heq.2.2.2]
    exact h.unsent c hc
  · rw [hacts]
    exact h.noneHeld

/-! ## Opening and closing -/

structure Opens (b b' : Broker) (ns : List Int) : Prop where
  conns : b'.conns = b.conns
  acts : b'.acts = b.acts
  clean : b'.badCloses = b.badCloses
  report : b'.reportFd = b.reportFd
  count : ∀ fd, opens b'.table fd = opens b.table fd + ns.count fd

theorem Opens.refl (b : Broker) : Opens b b [] :=
  ⟨rfl, rfl, rfl, rfl, fun _ => rfl⟩

theorem Opens.trans {b'' : Broker} {ns ns' : List Int} (h : Opens b b' ns) (h' : Opens b' b'' ns') :
    Opens b b'' (ns ++ ns') where
  conns := h'.conns.trans h.conns
  acts := h'.acts.trans h.acts
  clean := h'.clean.trans h.clean
  report := h'.report.trans h.report
  count := fun fd => by rw [h'.count, h.count, count_append, Nat.add_assoc]

theorem opens_allocFd (b : Broker) (file : Nat) : Opens b (b.allocFd file).1 ([(b.allocFd file).2].filter (0 ≤ ·)) := by
  unfold allocFd
  cases halloc : b.table.alloc file with
  | none => exact Opens.refl b
  | some r =>
    obtain ⟨n, t⟩ := r
    obtain ⟨hfree, hnonneg, _, hget⟩ := FdTable.alloc_spec halloc
    refine ⟨rfl, rfl, rfl, rfl, fun fd => ?_⟩
    have hkeep : [n].filter (fun x => decide (0 ≤ x)) = [n] := by simp [hnonneg]
    rw [hkeep, opens, opens, hget]
    by_cases hfd : fd = n
    · simp [hfd, hfree]
    · have hne : ¬ n = fd := fun heq => hfd heq.symm
      simp [hfd, hne]

theorem opens_openFd (b : Broker) : Opens b b.openFd.1 ([b.openFd.2].filter (0 ≤ ·)) := by
  have halloc := opens_allocFd { b with nextFile := b.nextFile + 1 } b.nextFile
  exact { halloc with }

theorem opens_dupFd (b : Broker) (fd : Int) : Opens b (b.dupFd fd).1 ([(b.dupFd fd).2].filter (0 ≤ ·)) := by
  unfold dupFd
  split
  · exact Opens.refl b
  · exact opens_allocFd b _

theorem opens_dupFds (b : Broker) (fds : List Int) : Opens b (b.dupFds fds).1 ((b.dupFds fds).2.filter (0 ≤ ·)) := by
  induction fds generalizing b with
  | nil => exact Opens.refl b
  | cons fd fds ih =>
    have htwo := (opens_dupFd b fd).trans (ih (b.dupFd fd).1)
    rw [← filter_append] at htwo
    exact htwo

theorem opens_openFds (b : Broker) (n : Nat) : Opens b (b.openFds n).1 (b.openFds n).2 := by
  induction n generalizing b with
  | zero => exact Opens.refl b
  | succ n ih =>
    have htwo := (opens_openFd b).trans (ih b.openFd.1)
    unfold openFds
    dsimp only
    by_cases hneg : b.openFd.2 < 0
    · have hdrop : [b.openFd.2].filter (fun x => decide (0 ≤ x)) = [] := by simp [hneg]
      rw [hdrop, nil_append] at htwo
      rwa [if_pos hneg]
    · have hkeep : [b.openFd.2].filter (fun x => decide (0 ≤ x)) = [b.openFd.2] := by simp; omega
      rw [hkeep, singleton_append] at htwo
      rwa [if_neg hneg]

theorem Ledger.opened {ns : List Int} (h : Ledger base b hand twice) (ho : Opens b b' ns) :
    Ledger base b' (ns ++ hand) twice := by
  have hslots : b'.slots = b.slots := by rw [slots, slots, ho.conns, ho.acts, ho.report]
  constructor
  · intro fd
    have := h.balance fd
    rw [hslots, ho.count, count_append]
    omega
  · rw [ho.clean]
    exact h.clean
  · unfold ids
    rw [ho.conns]
    exact h.nodup
  · rw [ho.conns]
    exact h.room
  · rw [ho.conns]
    exact h.unsent
  · rw [ho.acts]
    exact h.noneHeld

def AllOpen (b : Broker) (fds : List Int) : Prop :=
  ∀ fd, fds.count fd ≤ opens b.table fd

theorem Opens.allOpen {ns : List Int} (h : Opens b b' ns) : b'.AllOpen ns := fun fd => by
  rw [h.count]
  omega

theorem closeFd_of_open {fd : Int} (h : opens b.table fd = 1) :
    b.closeFd fd = { b with table := b.table.close fd } := by
  have hsome : (b.table.get fd).isSome := by
    by_contra hnone
    simp [opens, hnone] at h
  obtain ⟨a, ha⟩ := Option.isSome_iff_exists.mp hsome
  have hpos : ¬ fd < 0 := by
    have := (b.table.inRange fd a ha).1
    omega
  rw [closeFd, if_neg hpos, if_pos hsome]

theorem opens_close (t : FdTable Nat) (fd n : Int) : opens (t.close fd) n = if n = fd then 0 else opens t n := by
  by_cases h : n = fd <;> simp [opens, FdTable.get_close, h]

theorem Ledger.close {fd : Int} (h : Ledger base b hand twice) (hopen : opens b.table fd = 1) :
    Ledger base (b.closeFd fd) hand (fd :: twice) := by
  rw [closeFd_of_open hopen]
  refine ⟨fun n => ?_, h.clean, h.nodup, h.room, h.unsent, h.noneHeld⟩
  have := h.balance n
  show b.slots.count n + hand.count n + opens base n = opens (b.table.close fd) n + (fd :: twice).count n
  rw [opens_close, count_cons]
  by_cases hn : n = fd
  · subst hn
    simp only [if_pos, beq_self_eq_true]
    omega
  · have hne : ¬ fd = n := fun heq => hn heq.symm
    simp only [hn, if_false, beq_iff_eq, hne]
    omega

theorem Ledger.closeAll (h : Ledger base b hand twice) (hopen : b.AllOpen fds) :
    Ledger base (b.closeFds fds) hand (fds ++ twice) := by
  induction fds generalizing b twice with
  | nil => exact h
  | cons fd fds ih =>
    have hle : opens b.table fd ≤ 1 := by
      unfold opens
      split <;> omega
    have hone : opens b.table fd = 1 := by
      have := hopen fd
      rw [count_cons_self] at this
      omega
    have hrest : (b.closeFd fd).AllOpen fds := by
      intro n
      have := hopen n
      rw [closeFd_of_open hone]
      rw [opens_close]
      by_cases hn : n = fd
      · subst hn
        rw [count_cons_self] at this
        simp only [if_pos]
        omega
      · have hne : ¬ fd = n := fun heq => hn heq.symm
        rw [count_cons] at this
        simp only [beq_iff_eq, hne, if_false] at this
        simp only [hn, if_false]
        omega
    have hnext := ih (h.close hone) hrest
    show Ledger base ((b.closeFd fd).closeFds fds) hand (fd :: fds ++ twice)
    refine ⟨fun n => ?_, hnext.clean, hnext.nodup, hnext.room, hnext.unsent, hnext.noneHeld⟩
    have := hnext.balance n
    simp only [count_append, count_cons, cons_append] at this ⊢
    omega

theorem Ledger.closeHand (h : Ledger base b (fds ++ hand) twice) (hopen : b.AllOpen fds) :
    Ledger base (b.closeFds fds) hand twice :=
  (h.closeAll hopen).repay

/-! ## Connections and their queues -/

theorem Ledger.modConn {id : ConnId} {c : Conn} {f : Conn → Conn} (inn out : List Int)
    (h : Ledger base b (inn ++ hand) twice) (hc : b.conn? id = some c) (hid : (f c).id = c.id)
    (hcount : ∀ fd, (f c).slots.count fd + out.count fd = c.slots.count fd + inn.count fd)
    (hroom : (f c).pendingFds.length ≤ maxPendingFds) (hunsent : (f c).Unsent) :
    Ledger base (b.modConn id f) (out ++ hand) twice := by
  have hmem : ∀ c' ∈ (b.modConn id f).conns, c' = f c ∨ c' ∈ b.conns := by
    intro c' hc'
    obtain ⟨d, hd, rfl⟩ := mem_update.mp hc'
    split
    case isTrue heq =>
      have hlookup : b.conn? id = some d := heq ▸ lookup_of_mem h.nodup hd
      rw [hc] at hlookup
      cases hlookup
      exact .inl rfl
    · exact .inr hd
  constructor
  · intro fd
    have hsum := sum_update h.nodup (f := f) (fun c => c.slots.count fd) hc
    have hbalance := h.balance fd
    have hfd := hcount fd
    rw [count_slots] at hbalance ⊢
    simp only [count_append] at hbalance ⊢
    simp only [Broker.modConn] at hbalance ⊢
    omega
  · exact h.clean
  · have hids : (b.modConn id f).ids = b.ids := map_update_of_lookup h.nodup hc hid
    rw [hids]
    exact h.nodup
  · intro c' hc'
    rcases hmem c' hc' with rfl | hc'
    · exact hroom
    · exact h.room c' hc'
  · intro c' hc'
    rcases hmem c' hc' with rfl | hc'
    · exact hunsent
    · exact h.unsent c' hc'
  · exact h.noneHeld

theorem Ledger.setConn {id : ConnId} {c c' : Conn} (h : Ledger base b hand twice) (hc : b.conn? id = some c)
    (hsame : c'.holdings = c.holdings) : Ledger base (b.modConn id (fun _ => c')) hand twice :=
  h.same (map_update_of_lookup h.nodup hc hsame) rfl rfl rfl rfl

theorem Ledger.record (h : Ledger base b hand twice) (id : ConnId) {f : Conn → Conn}
    (hf : ∀ c, (f c).holdings = c.holdings) : Ledger base (b.modConn id f) hand twice :=
  h.same (map_update hf) rfl rfl rfl rfl

theorem count_slots_enqueue {c : Conn} {bytes : Bytes} {fds : List Int} (hlen : fds.length ≤ maxPendingFds)
    (h : c.overflows bytes.length = false) (fd : Int) :
    (c.enqueue bytes fds).slots.count fd = c.slots.count fd + fds.count fd := by
  rw [Conn.enqueue_of_not_overflows h]
  simp only [Conn.slots, flatMap_append, flatMap_singleton, take_of_length_le hlen, count_cons, count_append]
  omega

theorem Ledger.enqueue {id : ConnId} {c : Conn} (h : Ledger base b (fds ++ hand) twice) (hc : b.conn? id = some c)
    (hlen : fds.length ≤ maxPendingFds) (hopen : b.AllOpen fds) (bytes : Bytes) :
    Ledger base (b.enqueue id bytes fds) hand twice := by
  have hroom := h.room c (mem_of_lookup hc)
  have hunsent := h.unsent c (mem_of_lookup hc)
  have hkeep : ∀ c : Conn, (c.enqueue bytes fds).id = c.id ∧ (c.enqueue bytes fds).pendingFds = c.pendingFds := by
    intro c
    unfold Conn.enqueue
    split <;> exact ⟨rfl, rfl⟩
  have hid := (hkeep c).1
  have hroom' : (c.enqueue bytes fds).pendingFds.length ≤ maxPendingFds := by
    rw [(hkeep c).2]
    exact hroom
  unfold Broker.enqueue
  rw [hc]
  dsimp only
  cases hover : c.overflows bytes.length with
  | true =>
    have hfull : c.enqueue bytes fds = { c with oqOver := true } := enqueue_of_overflows hover
    have hmod : Ledger base (b.modConn id (fun c => c.enqueue bytes fds)) (fds ++ hand) twice := by
      refine Ledger.modConn fds fds h hc hid (fun fd => ?_) hroom' ?_
      · rw [hfull]
        rfl
      · rw [hfull]
        exact hunsent
    rw [if_pos rfl, take_of_length_le hlen]
    exact hmod.closeHand hopen
  | false =>
    rw [if_neg (by decide)]
    refine Ledger.modConn fds [] h hc hid (fun fd => count_slots_enqueue hlen hover fd) hroom' ?_
    rw [enqueue_of_not_overflows hover]
    intro k hk hoff
    rcases mem_append.mp hk with hk | hk
    · exact hunsent k hk hoff
    · rw [mem_singleton.mp hk] at hoff
      exact absurd rfl hoff

variable (h : Ledger base b hand twice)
include h

theorem Ledger.enqueueNil (id : ConnId) (bytes : Bytes) : Ledger base (b.enqueue id bytes []) hand twice := by
  cases hc : b.conn? id with
  | none =>
    unfold Broker.enqueue
    rw [hc]
    exact h
  | some c =>
    have hnil : Ledger base b ([] ++ hand) twice := h
    exact hnil.enqueue hc (Nat.zero_le _) (fun _ => Nat.zero_le _) bytes

/-! ## Talk and work -/

theorem Ledger.talk1 (ht : Talk1 b b') : Ledger base b' hand twice := by
  cases ht with
  | serial s d => exact h.same rfl rfl rfl rfl rfl
  | enqueue id bytes => exact h.enqueueNil id bytes
  | copy id bytes fds c hc hfds =>
    have ho := opens_dupFds b fds
    have hc' : (b.dupFds fds).1.conn? id = some c := by rw [Broker.conn?, ho.conns]; exact hc
    have hlen : ((b.dupFds fds).2.filter (0 ≤ ·)).length ≤ maxPendingFds := by
      have hdup : ∀ (fds : List Int) (b : Broker), (b.dupFds fds).2.length = fds.length := by
        intro fds
        induction fds with
        | nil => exact fun _ => rfl
        | cons fd fds ih => exact fun b => congrArg (· + 1) (ih _)
      exact (length_filter_le _ _).trans ((hdup fds b).le.trans hfds)
    exact (h.opened ho).enqueue hc' hlen ho.allOpen bytes
  | out id g => exact h.record id (fun _ => rfl)
  | reports rs => exact h.same rfl rfl rfl rfl rfl
  | socket hfd =>
    have ho := opens_openFd b
    have hopened := h.opened ho
    split
    case isTrue hneg =>
      have hdrop : [b.openFd.2].filter (fun x => decide (0 ≤ x)) = [] := by simp [hneg]
      rwa [hdrop] at hopened
    case isFalse hpos =>
      have hkeep : [b.openFd.2].filter (fun x => decide (0 ≤ x)) = [b.openFd.2] := by simp; omega
      rw [hkeep] at hopened
      refine ⟨fun fd => ?_, hopened.clean, hopened.nodup, hopened.room, hopened.unsent, hopened.noneHeld⟩
      have := hopened.balance fd
      have hnone : b.openFd.1.reportFd = none := ho.report.trans hfd
      rw [count_slots] at this ⊢
      simp only [hnone, Option.toList_none, count_nil, count_append] at this
      simp only [Option.toList_some]
      omega

theorem Ledger.talk (ht : Talk b b') : Ledger base b' hand twice := by
  induction ht with
  | refl => exact h
  | tail _ hstep ih => exact ih.talk1 hstep

theorem Ledger.setActs {acts : Acts} (hnone : ∀ m ∈ allHeld acts, m.fds = []) :
    Ledger base { b with acts := acts } hand twice := by
  have hempty : ∀ {l : List HeldMsg}, (∀ m ∈ l, m.fds = []) → l.flatMap HeldMsg.fds = [] :=
    fun hl => flatMap_eq_nil_iff.mpr hl
  refine ⟨fun fd => ?_, h.clean, h.nodup, h.room, h.unsent, hnone⟩
  have := h.balance fd
  rw [count_slots, hempty h.noneHeld] at this
  rw [count_slots, hempty hnone]
  exact this

theorem Ledger.foldl {α : Type} {f : Broker → α → Broker} {l : List α}
    (hf : ∀ b, Ledger base b hand twice → ∀ x ∈ l, Ledger base (f b x) hand twice) :
    Ledger base (l.foldl f b) hand twice :=
  l.foldlRecOn f h hf

theorem Ledger.relayNil (ok : Conn → Bool) (bytes : Bytes) (declared : Int)
    (id : ConnId) : Ledger base (relayOne ok bytes declared [] b id) hand twice := by
  unfold relayOne
  split
  · exact h
  · split
    · exact (h.enqueueNil id bytes).same rfl rfl rfl rfl rfl
    · exact h

theorem Ledger.releaseHeld (env : Env) {m : HeldMsg} (hm : m.fds = []) :
    Ledger base (Broker.releaseHeld env b m) hand twice := by
  unfold Broker.releaseHeld
  rw [hm]
  split
  · split
    · exact h
    · exact h.talk (talk_enqueueReply env b ..)
  · split
    · split
      · rw [if_neg (by simp)]
        have hreplies : ∀ rs, Ledger base { b with replies := rs } hand twice :=
          fun rs => h.same rfl rfl rfl rfl rfl
        unfold relayAll
        split
        · exact hreplies _
        · exact Ledger.foldl ((hreplies _).relayNil ..) (fun b hb x _ => hb.relayNil _ _ _ x)
      · exact h
    · exact h

theorem Ledger.failOne (env : Env) (name text : Bytes) {m : HeldMsg} (hm : m.fds = []) :
    Ledger base (Broker.failOne env name text b m) hand twice := by
  unfold Broker.failOne
  rw [hm]
  split
  · exact h
  · split
    · exact h.talk (talk_synthErrorWire env b ..)
    · exact h

theorem Ledger.quiet1 (hq : Quiet1 b b') : Ledger base b' hand twice := by
  cases hq with
  | talk ht => exact h.talk1 ht
  | replies => exact h.same rfl rfl rfl rfl rfl
  | release env name =>
    unfold releaseActivation actsTake actsFind
    cases hidx : b.acts.findIdx? (fun e => e.name = name) with
    | none => exact h
    | some i =>
      obtain ⟨hlt, _⟩ := findIdx?_eq_some_iff_getElem.mp hidx
      have hperm := allHeld_actsPop hlt
      have hrest : ∀ m ∈ allHeld (actsPop b.acts i).1, m.fds = [] := fun m hm =>
        h.noneHeld m (hperm.subset (mem_append_left _ hm))
      refine Ledger.foldl (h.setActs hrest) fun b hb m hm => hb.releaseHeld env ?_
      exact h.noneHeld m (hperm.subset (mem_append_right _ hm))
  | fail env acts held name text hperm =>
    have hrest : ∀ m ∈ allHeld acts, m.fds = [] := fun m hm =>
      h.noneHeld m (hperm.subset (mem_append_left _ hm))
    refine Ledger.foldl (h.setActs hrest) fun b hb m hm => hb.failOne env name text ?_
    exact h.noneHeld m (hperm.subset (mem_append_right _ hm))

theorem Ledger.calm1 (hc : Calm1 b b') : Ledger base b' hand twice := by
  cases hc with
  | quiet hq => exact h.quiet1 hq
  | field => exact h.same rfl rfl rfl rfl rfl
  | await env target acts i caller serial hbegin =>
    refine h.setActs fun m hm => ?_
    rcases mem_allHeld_actsHold hm with rfl | hm
    · rfl
    · exact h.noneHeld m (allHeld_beginActivation hbegin ▸ hm)

theorem Ledger.work1 (hw : Own1 Calm1 b b') : Ledger base b' hand twice := by
  cases hw with
  | other hc => exact h.calm1 hc
  | registry names log => exact h.same rfl rfl rfl rfl rfl
  | record id f hid hfd hpending hoq =>
    refine h.record id fun c => ?_
    simp [holdings, hid, hfd, hpending, hoq]

theorem Ledger.work (hw : Work b b') : Ledger base b' hand twice := by
  induction hw with
  | refl => exact h
  | tail _ hstep ih => exact ih.work1 hstep

end Broker

end SchemaInit.Dbus
