/-
# `SchemaInit.Dbus.Outbound` — what goes out on a connection

The outbound queue with its array: `oq_head` chunks at the front are sent and freed,
and the array is moved down or grown when it is full.  `Conn` has the unsent part of it
as a list, which is the same thing (`Tracks`).

On the wire a message is its bytes, the first of which carries the descriptors.  What
has been sent is a prefix of what was passed to `sdbus_conn_enqueue` as long as no
message is accepted after one was refused (`outbound_in_order`): a refusal only marks
the connection, and until it is swept a shorter message still gets into the queue
(`refused_message_skipped`).
-/
import SchemaInit.Lib.Run
import SchemaInit.Dbus.Conn

namespace SchemaInit.Dbus

open Conn List

variable {k : OutChunk} {c : Conn} {b : Bytes} {n : Nat}

/-! ## The queue as an array -/

/-- `oq`, `n_oq` (its length), `oq_head`, `oq_cap`, `oq_bytes` and `oq_over`. -/
structure OutQueue where
  oq : List OutChunk := []
  head : Nat := 0
  cap : Nat := 0
  bytes : Int := 0
  oqOver : Bool := false
  deriving DecidableEq

variable {q : OutQueue}

namespace OutQueue

def chunks (q : OutQueue) : List OutChunk :=
  q.oq.drop q.head

def overflows (q : OutQueue) (len : Nat) : Bool :=
  decide (q.bytes + len + sizeofOutchunk > maxOutgoingBytes)

def makeRoom (q : OutQueue) : OutQueue :=
  if q.oq.length = q.cap then
    if q.head > 0 && q.head * 2 ≥ q.oq.length then { q with oq := q.oq.drop q.head, head := 0 }
    else { q with cap := if q.cap = 0 then 16 else q.cap * 2 }
  else q

/-- `sdbus_conn_enqueue`, apart from closing the descriptors of a refused message. -/
def enqueue (b : Bytes) (fds : List Int) (q : OutQueue) : OutQueue :=
  if q.overflows b.length then { q with oqOver := true }
  else
    let r := q.makeRoom
    { r with
      oq := r.oq ++ [{ b := b, off := 0, fds := fds.take maxPendingFds }]
      bytes := r.bytes + b.length + sizeofOutchunk }

def advance (k : OutChunk) (n : Nat) : OutChunk :=
  { k with off := k.off + n, fds := if k.off = 0 then [] else k.fds }

/-- What a `sendmsg` of which `n` bytes are taken sends: the descriptors go with the first bytes. -/
def callOf (k : OutChunk) (n : Nat) : Bytes × List Int :=
  ((k.b.drop k.off).take n, if k.off = 0 then k.fds else [])

def took (q : OutQueue) (k : OutChunk) (n : Nat) : OutQueue :=
  { q with oq := q.oq.set q.head (advance k n), bytes := q.bytes - n }

def next (q : OutQueue) : OutQueue :=
  { q with head := q.head + 1, bytes := q.bytes - sizeofOutchunk }

/-- `flush_conn` with the answers of its `sendmsg` calls: the queue, each call that sent something,
with the bytes that were taken and the descriptors that were attached (and closed after it), and
whether the connection still works. -/
def flush : List SendResult → OutQueue → OutQueue × List (Bytes × List Int) × Bool
  | answers, q =>
    match q.oq[q.head]?, answers with
    | none, _ => ({ oqOver := q.oqOver }, [], true)
    | some _, [] => (q, [], true)
    | some _, .again :: _ => (q, [], true)
    | some _, .broken :: _ => (q, [], false)
    | some k, .sent n :: answers =>
      let n := min n (k.b.length - k.off)
      if k.off + n ≥ k.b.length then
        let r := flush answers (q.took k n).next
        (r.1, callOf k n :: r.2.1, r.2.2)
      else (q.took k n, [callOf k n], true)

end OutQueue

/-! ## The list of unsent chunks -/

structure Tracks (c : Conn) (q : OutQueue) : Prop where
  chunks : c.oq = q.chunks
  bytes : c.oqBytes = q.bytes
  oqOver : c.oqOver = q.oqOver

namespace OutQueue

theorem chunks_makeRoom (q : OutQueue) : q.makeRoom.chunks = q.chunks := by
  unfold makeRoom chunks
  split
  · split
    · rfl
    · rfl
  · rfl

theorem chunks_append (h : q.head ≤ q.oq.length) (k : OutChunk) :
    ({ q with oq := q.oq ++ [k] } : OutQueue).chunks = q.chunks ++ [k] := by
  simp [chunks, drop_append_of_le_length h]

theorem head_makeRoom (h : q.head ≤ q.oq.length) : q.makeRoom.head ≤ q.makeRoom.oq.length := by
  unfold makeRoom
  split
  · split
    · exact Nat.zero_le _
    · exact h
  · exact h

theorem head_enqueue (h : q.head ≤ q.oq.length) (b : Bytes) (fds : List Int) :
    (q.enqueue b fds).head ≤ (q.enqueue b fds).oq.length := by
  unfold enqueue
  split
  · exact h
  · have := head_makeRoom h
    simp only [length_append, length_singleton]
    omega

theorem makeRoom_bytes (q : OutQueue) : q.makeRoom.bytes = q.bytes ∧ q.makeRoom.oqOver = q.oqOver := by
  unfold makeRoom
  split
  · split
    · exact ⟨rfl, rfl⟩
    · exact ⟨rfl, rfl⟩
  · exact ⟨rfl, rfl⟩

theorem chunks_cons (h : q.oq[q.head]? = some k) : q.chunks = k :: q.oq.drop (q.head + 1) := by
  obtain ⟨hlt, rfl⟩ := List.getElem?_eq_some_iff.mp h
  exact List.drop_eq_getElem_cons hlt

theorem chunks_took (h : q.oq[q.head]? = some k) (n : Nat) :
    (q.took k n).chunks = advance k n :: q.oq.drop (q.head + 1) := by
  rw [chunks, took]
  obtain ⟨hlt, -⟩ := List.getElem?_eq_some_iff.mp h
  rw [List.drop_eq_getElem_cons (by simpa using hlt), List.getElem_set_self, List.drop_set_of_lt (Nat.lt_succ_self _)]

theorem chunks_next (q : OutQueue) (k : OutChunk) (n : Nat) : (q.took k n).next.chunks = q.oq.drop (q.head + 1) :=
  drop_set_of_lt (Nat.lt_succ_self _)

end OutQueue

theorem Tracks.enqueue (h : Tracks c q) (hhead : q.head ≤ q.oq.length) (b : Bytes) (fds : List Int) :
    Tracks (c.enqueue b fds) (q.enqueue b fds) := by
  have hover : c.overflows b.length = q.overflows b.length := by rw [overflows, OutQueue.overflows, h.bytes]
  unfold Conn.enqueue OutQueue.enqueue
  rw [hover]
  split
  · exact ⟨h.chunks, h.bytes, rfl⟩
  · obtain ⟨hbytes, hflag⟩ := q.makeRoom_bytes
    refine ⟨?_, ?_, h.oqOver.trans hflag.symm⟩
    · have hroom := OutQueue.chunks_append (OutQueue.head_makeRoom hhead) ⟨b, 0, fds.take maxPendingFds⟩
      rw [OutQueue.chunks_makeRoom, ← h.chunks] at hroom
      exact hroom.symm
    · show c.oqBytes + b.length + sizeofOutchunk = q.makeRoom.bytes + b.length + sizeofOutchunk
      rw [hbytes, h.bytes]

theorem Tracks.drained (h : Tracks c q) (hk : q.oq[q.head]? = none) : c.oq = [] :=
  h.chunks.trans (drop_eq_nil_of_le (getElem?_eq_none_iff.mp hk))

theorem Tracks.flush (h : Tracks c q) (answers : List SendResult) (closed : List Int) :
    Tracks (flush answers c closed).1 (q.flush answers).1 ∧
      (flush answers c closed).2 = (closed ++ (q.flush answers).2.1.flatMap Prod.snd, (q.flush answers).2.2) := by
  induction answers generalizing c q closed with
  | nil =>
    unfold flush OutQueue.flush
    cases hk : q.oq[q.head]? with
    | none =>
      rw [h.drained hk]
      exact ⟨⟨rfl, rfl, h.oqOver⟩, by simp⟩
    | some k =>
      rw [h.chunks, OutQueue.chunks_cons hk]
      exact ⟨h, by simp⟩
  | cons a answers ih =>
    unfold flush OutQueue.flush
    cases hk : q.oq[q.head]? with
    | none =>
      rw [h.drained hk]
      exact ⟨⟨rfl, rfl, h.oqOver⟩, by simp⟩
    | some k =>
      rw [h.chunks, OutQueue.chunks_cons hk]
      cases a with
      | again => exact ⟨h, by simp⟩
      | broken => exact ⟨h, by simp⟩
      | sent n =>
        dsimp only
        split
        · have hnext := ih (c := { c with oq := q.oq.drop (q.head + 1)
                                          oqBytes := c.oqBytes - (min n (k.b.length - k.off) : Nat) - sizeofOutchunk })
            ⟨(q.chunks_next k _).symm, by rw [h.bytes]; rfl, h.oqOver⟩
            (if k.off = 0 then closed ++ k.fds else closed)
          refine ⟨hnext.1, hnext.2.trans ?_⟩
          rw [flatMap_cons, OutQueue.callOf]
          split
          · simp
          · simp
        · refine ⟨⟨(OutQueue.chunks_took hk _).symm, by rw [h.bytes]; rfl, h.oqOver⟩, ?_⟩
          rw [OutQueue.callOf]
          split
          · simp
          · simp

/-! ## On the wire -/

def onWire (m : Bytes × List Int) : List (UInt8 × List Int) :=
  match m.1 with
  | [] => []
  | b :: bs => (b, m.2) :: bs.map fun b => (b, [])

def OutChunk.rest (k : OutChunk) : List (UInt8 × List Int) :=
  if k.off = 0 then onWire (k.b, k.fds) else (k.b.drop k.off).map fun b => (b, [])

theorem onWire_nil_fds (b : Bytes) : onWire (b, []) = b.map fun b => (b, []) := by
  cases b with
  | nil => rfl
  | cons x xs => rfl

theorem onWire_take (fds : List Int) (h : 0 < n ∨ b = []) :
    onWire (b, fds) = onWire (b.take n, fds) ++ (b.drop n).map fun b => (b, []) := by
  cases b with
  | nil => simp [onWire]
  | cons x xs =>
    obtain ⟨m, rfl⟩ : ∃ m, n = m + 1 := ⟨n - 1, by rcases h with h | h; omega; cases h⟩
    simp [onWire, -map_append]

theorem rest_advance (h : 0 < n ∨ k.b.length ≤ k.off) :
    k.rest = onWire (OutQueue.callOf k n) ++ (OutQueue.advance k n).rest := by
  by_cases hoff : k.off = 0
  · have hhead : 0 < n ∨ k.b = [] := h.imp id fun hle => length_eq_zero_iff.mp (by omega)
    simp only [OutChunk.rest, OutQueue.advance, OutQueue.callOf, hoff, if_true, drop_zero, Nat.zero_add]
    rw [onWire_take k.fds hhead]
    by_cases hn : n = 0
    · have hb : k.b = [] := hhead.resolve_left (by omega)
      simp [onWire, hn, hb]
    · simp [hn]
  · have hoff' : k.off + n ≠ 0 := by omega
    simp only [OutChunk.rest, OutQueue.advance, OutQueue.callOf, hoff, hoff', if_false]
    rw [onWire_nil_fds, ← map_append, ← drop_drop, take_append_drop]

theorem rest_of_done (h : k.b.length ≤ k.off) : k.rest = [] := by
  unfold OutChunk.rest
  split
  · have hb : k.b = [] := length_eq_zero_iff.mp (by omega)
    rw [hb]
    rfl
  · rw [drop_eq_nil_of_le h]
    rfl

def OutQueue.rest (q : OutQueue) : List (UInt8 × List Int) :=
  q.chunks.flatMap OutChunk.rest

theorem OutQueue.rest_flush (answers : List SendResult) (q : OutQueue) (h : ∀ n, SendResult.sent n ∈ answers → 0 < n) :
    q.rest = (q.flush answers).2.1.flatMap onWire ++ (q.flush answers).1.rest := by
  induction answers generalizing q with
  | nil =>
    unfold OutQueue.flush
    cases hk : q.oq[q.head]? with
    | none => simp [OutQueue.rest, OutQueue.chunks, drop_eq_nil_of_le (getElem?_eq_none_iff.mp hk)]
    | some k => rfl
  | cons a answers ih =>
    unfold OutQueue.flush
    cases hk : q.oq[q.head]? with
    | none => simp [OutQueue.rest, OutQueue.chunks, drop_eq_nil_of_le (getElem?_eq_none_iff.mp hk)]
    | some k =>
      cases a with
      | again => rfl
      | broken => rfl
      | sent n =>
        have hn : 0 < n := h n (mem_cons_self ..)
        have hadvance := rest_advance (k := k) (n := min n (k.b.length - k.off)) (by omega)
        have hrest : q.rest = k.rest ++ (q.oq.drop (q.head + 1)).flatMap OutChunk.rest := by
          rw [OutQueue.rest, OutQueue.chunks_cons hk, flatMap_cons]
        rw [hrest, hadvance]
        dsimp only
        split
        next hdone =>
          -- the chunk is done, and nothing of it is to come
          have hnone : (OutQueue.advance k (min n (k.b.length - k.off))).rest = [] := rest_of_done hdone
          rw [hnone, append_nil, flatMap_cons, append_assoc]
          congr 1
          refine Eq.trans ?_ (ih _ fun m hm => h m (mem_cons_of_mem _ hm))
          rw [OutQueue.rest, OutQueue.chunks_next]
        next hmore =>
          rw [OutQueue.rest, OutQueue.chunks_took hk]
          simp

/-! ## What a flush keeps -/

namespace OutQueue

theorem flush_invariant {P : OutQueue → Prop} (drained : ∀ q, P q → P { oqOver := q.oqOver })
    (took : ∀ q k n, q.oq[q.head]? = some k → P q → P (q.took k n))
    (next : ∀ q k n, q.oq[q.head]? = some k → P q → P (q.took k n).next) (answers : List SendResult)
    (h : P q) : P (q.flush answers).1 := by
  induction answers generalizing q with
  | nil =>
    unfold flush
    cases hk : q.oq[q.head]? with
    | none => exact drained q h
    | some k => exact h
  | cons a answers ih =>
    unfold flush
    cases hk : q.oq[q.head]? with
    | none => exact drained q h
    | some k =>
      cases a with
      | again => exact h
      | broken => exact h
      | sent n =>
        dsimp only
        split
        · exact ih (next q k _ hk h)
        · exact took q k _ hk h

theorem head_flush (h : q.head ≤ q.oq.length) (answers : List SendResult) :
    (q.flush answers).1.head ≤ (q.flush answers).1.oq.length := by
  refine flush_invariant (P := fun q => q.head ≤ q.oq.length) ?_ ?_ ?_ answers h
  · exact fun _ _ => Nat.zero_le _
  · intro q k n _ h
    simpa [OutQueue.took] using h
  · intro q k n hk _
    have hlt := (List.getElem?_eq_some_iff.mp hk).1
    simp only [OutQueue.took, OutQueue.next, length_set]
    omega

theorem over_flush (q : OutQueue) (answers : List SendResult) : (q.flush answers).1.oqOver = q.oqOver :=
  flush_invariant (P := fun r => r.oqOver = q.oqOver) (fun _ h => h) (fun _ _ _ _ h => h)
    (fun _ _ _ _ h => h) answers rfl

theorem bytes_flush_le {m : Int} (hm : 0 ≤ m) (h : q.bytes ≤ m) (answers : List SendResult) :
    (q.flush answers).1.bytes ≤ m := by
  refine flush_invariant (P := fun r => r.bytes ≤ m) (fun _ _ => hm) ?_ ?_ answers h
  · intro q k n _ h
    simp only [OutQueue.took]
    omega
  · intro q k n _ h
    simp only [OutQueue.took, OutQueue.next]
    omega

theorem bytes_enqueue_le (h : q.bytes ≤ maxOutgoingBytes) (b : Bytes) (fds : List Int) :
    (q.enqueue b fds).bytes ≤ maxOutgoingBytes := by
  unfold enqueue
  split
  · exact h
  next hfits =>
    have hbytes := q.makeRoom_bytes.1
    simp only [overflows, decide_eq_true_eq] at hfits
    dsimp only
    omega

theorem enqueue_refused (h : q.overflows b.length = true) (fds : List Int) :
    q.enqueue b fds = { q with oqOver := true } := by
  rw [enqueue, if_pos h]

theorem rest_enqueue (hhead : q.head ≤ q.oq.length) (h : q.overflows b.length = false)
    (fds : List Int) : (q.enqueue b fds).rest = q.rest ++ onWire (b, fds.take maxPendingFds) := by
  have hroom := chunks_append (head_makeRoom hhead) ⟨b, 0, fds.take maxPendingFds⟩
  rw [chunks_makeRoom] at hroom
  have hchunks : (q.enqueue b fds).chunks = q.chunks ++ [⟨b, 0, fds.take maxPendingFds⟩] := by
    rw [enqueue, h]
    exact hroom
  rw [rest, rest, hchunks, flatMap_append]
  simp [OutChunk.rest]

end OutQueue

/-! ## A connection's output -/

inductive OutEvent where
  | enqueue (b : Bytes) (fds : List Int)
  | flush (answers : List SendResult)

/-- The queue, every message passed to `sdbus_conn_enqueue` so far, and what the socket has taken. -/
structure Outbound where
  queue : OutQueue := {}
  passed : List (Bytes × List Int) := []
  wire : List (UInt8 × List Int) := []

variable {o : Outbound}

def Outbound.step (o : Outbound) : OutEvent → Outbound
  | .enqueue b fds => { o with queue := o.queue.enqueue b fds, passed := o.passed ++ [(b, fds)] }
  | .flush answers =>
    { o with queue := (o.queue.flush answers).1, wire := o.wire ++ (o.queue.flush answers).2.1.flatMap onWire }

def OutEvent.Real : OutEvent → Prop
  | .enqueue _ _ => True
  | .flush answers => ∀ n, SendResult.sent n ∈ answers → 0 < n

/-- No message has more descriptors than fit, and once one is refused no other is accepted. -/
def Outbound.Orderly (o : Outbound) : OutEvent → Prop
  | .enqueue b fds => fds.length ≤ maxPendingFds ∧ (o.queue.oqOver = true → o.queue.overflows b.length = true)
  | .flush _ => True

/-- Some messages, from the first on, are accepted, and all of them if none was refused; they are on
the wire or still to come. -/
structure Outbound.InOrder (o : Outbound) : Prop where
  head : o.queue.head ≤ o.queue.oq.length
  accepted : ∃ acc, acc <+: o.passed ∧ (o.queue.oqOver = false → acc = o.passed) ∧
    o.wire ++ o.queue.rest = acc.flatMap onWire

namespace Outbound

theorem InOrder.enqueue (h : o.InOrder) {fds : List Int} (hok : o.Orderly (.enqueue b fds)) :
    (o.step (.enqueue b fds)).InOrder := by
  obtain ⟨hfds, honce⟩ := hok
  obtain ⟨acc, hpre, hall, hwire⟩ := h.accepted
  refine ⟨OutQueue.head_enqueue h.head b fds, ?_⟩
  cases hfits : o.queue.overflows b.length with
  | true =>
    refine ⟨acc, hpre.trans (prefix_append _ _), ?_, ?_⟩
    · intro hover
      rw [step, OutQueue.enqueue_refused hfits] at hover
      cases hover
    · rw [step, OutQueue.enqueue_refused hfits]
      exact hwire
  | false =>
    have hover : o.queue.oqOver = false := by
      cases hflag : o.queue.oqOver with
      | false => rfl
      | true => rw [honce hflag] at hfits; cases hfits
    refine ⟨o.passed ++ [(b, fds)], prefix_refl _, fun _ => rfl, ?_⟩
    have hrest := OutQueue.rest_enqueue h.head hfits fds
    rw [take_of_length_le hfds] at hrest
    show o.wire ++ (o.queue.enqueue b fds).rest = _
    rw [hrest, ← append_assoc, hwire, hall hover, flatMap_append, flatMap_singleton]

theorem InOrder.flush (h : o.InOrder) {answers : List SendResult} (hreal : OutEvent.Real (.flush answers)) :
    (o.step (.flush answers)).InOrder := by
  obtain ⟨acc, hpre, hall, hwire⟩ := h.accepted
  refine ⟨OutQueue.head_flush h.head answers, acc, hpre, ?_, ?_⟩
  · intro hover
    exact hall ((o.queue.over_flush answers).symm.trans hover)
  · show (o.wire ++ _) ++ (o.queue.flush answers).1.rest = _
    rw [append_assoc, ← OutQueue.rest_flush answers o.queue hreal, hwire]

theorem InOrder.step (h : o.InOrder) {e : OutEvent} (hreal : e.Real) (hok : o.Orderly e) : (o.step e).InOrder := by
  cases e with
  | enqueue b fds => exact h.enqueue hok
  | flush answers => exact h.flush hreal

structure Accounted (o : Outbound) : Prop where
  head : o.queue.head ≤ o.queue.oq.length
  conn : ∃ c : Conn, Tracks c o.queue ∧ c.Counted
  cap : o.queue.bytes ≤ maxOutgoingBytes

theorem Accounted.start : Accounted {} :=
  ⟨Nat.zero_le _, ⟨new 0 0 ⟨0, 0, 0, []⟩, ⟨rfl, rfl, rfl⟩, counted_new ..⟩, by decide⟩

theorem Accounted.step (h : o.Accounted) (e : OutEvent) : (o.step e).Accounted := by
  obtain ⟨c, htracks, hcounted⟩ := h.conn
  cases e with
  | enqueue b fds =>
    exact ⟨OutQueue.head_enqueue h.head b fds,
      ⟨c.enqueue b fds, htracks.enqueue h.head b fds, hcounted.enqueue b fds⟩, OutQueue.bytes_enqueue_le h.cap b fds⟩
  | flush answers =>
    exact ⟨OutQueue.head_flush h.head answers,
      ⟨_, (htracks.flush answers []).1, hcounted.flush answers []⟩, OutQueue.bytes_flush_le (by decide) h.cap answers⟩

end Outbound

/-- What the socket has taken is the beginning of the messages in their order, each with its descriptors
on its first byte, when no message is accepted after a refused one; and `oq_bytes` counts the unsent
bytes and chunks and stays below the cap. -/
theorem outbound_in_order {o : Outbound} (h : Run.Reaches Outbound.step (fun o e => e.Real ∧ o.Orderly e) {} o) :
    o.wire <+: o.passed.flatMap onWire ∧
      o.queue.bytes = ((o.queue.chunks.map fun k => k.b.length - k.off + sizeofOutchunk).sum : Nat) ∧
        o.queue.bytes ≤ maxOutgoingBytes := by
  have horder : o.InOrder := h.invariant Outbound.InOrder ⟨Nat.zero_le _, [], by simp, by simp, rfl⟩
    fun u e hu he => hu.step he.1 he.2
  have hcount : o.Accounted := h.invariant Outbound.Accounted .start fun u e hu _ => hu.step e
  obtain ⟨acc, ⟨more, hmore⟩, -, hwire⟩ := horder.accepted
  obtain ⟨c, htracks, hcounted⟩ := hcount.conn
  refine ⟨⟨o.queue.rest ++ more.flatMap onWire, ?_⟩, ?_, hcount.cap⟩
  · rw [← append_assoc, hwire, ← flatMap_append, hmore]
  · have hsum : c.oqBytes = ((c.oq.map OutChunk.weight).sum : Nat) := hcounted
    rw [htracks.chunks, htracks.bytes] at hsum
    exact hsum

theorem outbound_in_order_partial :
    let o := [OutEvent.enqueue [1, 2, 3] [5], .flush [.sent 2], .enqueue [4] [], .flush [.again]].foldl Outbound.step {}
    o.wire = [(1, [5]), (2, [])] ∧ o.wire <+: o.passed.flatMap onWire ∧
      o.queue.bytes = 1 + sizeofOutchunk + (1 + sizeofOutchunk) := by
  refine ⟨by decide, (outbound_in_order (Run.AllOk.reaches ?_)).1, by decide⟩
  refine ⟨⟨trivial, by decide, by decide⟩, ⟨?_, trivial⟩, ⟨trivial, by decide, by decide⟩, ⟨?_, trivial⟩, trivial⟩
  · intro n hn
    simp only [mem_singleton, SendResult.sent.injEq] at hn
    omega
  · intro n hn
    cases hn with
    | tail _ h => cases h

/-- The first message fills the queue, the second is refused, the third fits again. -/
def skipping (x y z : Bytes) : List OutEvent :=
  [.enqueue x [], .enqueue y [], .enqueue z [], .flush [.sent x.length, .sent z.length]]

theorem wire_skipping {x y z : Bytes} (hx : x.length + sizeofOutchunk ≤ maxOutgoingBytes)
    (hy : maxOutgoingBytes < x.length + sizeofOutchunk + (y.length + sizeofOutchunk))
    (hz : x.length + sizeofOutchunk + (z.length + sizeofOutchunk) ≤ maxOutgoingBytes) :
    ((skipping x y z).foldl Outbound.step {}).wire = onWire (x, []) ++ onWire (z, []) := by
  have hfirst : ({} : OutQueue).enqueue x [] =
      { oq := [⟨x, 0, []⟩], cap := 16, bytes := 0 + x.length + sizeofOutchunk } := by
    rw [OutQueue.enqueue, if_neg]
    · rfl
    · simp only [OutQueue.overflows, decide_eq_true_eq]
      omega
  have hsecond := OutQueue.enqueue_refused (b := y)
    (q := { oq := [⟨x, 0, []⟩], cap := 16, bytes := 0 + x.length + sizeofOutchunk })
    (by simp only [OutQueue.overflows, decide_eq_true_eq]; omega) []
  have hthird : ({ oq := [⟨x, 0, []⟩], cap := 16, bytes := 0 + x.length + sizeofOutchunk, oqOver := true } : OutQueue).enqueue z []
      = { oq := [⟨x, 0, []⟩, ⟨z, 0, []⟩], cap := 16, oqOver := true,
          bytes := 0 + x.length + sizeofOutchunk + z.length + sizeofOutchunk } := by
    rw [OutQueue.enqueue, if_neg]
    · rfl
    · simp only [OutQueue.overflows, decide_eq_true_eq]
      omega
  simp only [skipping, List.foldl, Outbound.step, hfirst, hsecond, hthird]
  simp [OutQueue.flush, OutQueue.took, OutQueue.next, OutQueue.callOf, OutQueue.advance]

/-- Ten MiB are queued, the next ten MiB are refused, and a byte after them still gets in and out: what
the peer reads is not the beginning of what was sent to it. -/
theorem refused_message_skipped : ∃ o,
    Run.Reaches Outbound.step (fun _ e => e.Real) {} o ∧ (∀ m ∈ o.passed, m.2.length ≤ maxPendingFds) ∧
      ¬ o.wire <+: o.passed.flatMap onWire := by
  have hlen (n : Nat) : ∃ b : Bytes, b.length = n := ⟨List.replicate n 1, length_replicate⟩
  obtain ⟨x, hx⟩ := hlen (10 * 1024 * 1024)
  obtain ⟨ys, hys⟩ := hlen (10 * 1024 * 1024 - 1)
  have hy : (2 :: ys : Bytes).length = ys.length + 1 := length_cons
  have hsizes : sizeofOutchunk = 88 ∧ maxOutgoingBytes = 16 * 1024 * 1024 := ⟨rfl, rfl⟩
  have hwire := wire_skipping (x := x) (y := 2 :: ys) (z := [3]) (by omega) (by omega) (by rw [length_singleton]; omega)
  refine ⟨(skipping x (2 :: ys) [3]).foldl Outbound.step {},
    Run.AllOk.reaches ⟨trivial, trivial, trivial, ?_, trivial⟩, ?_, ?_⟩
  · intro n hn
    simp only [mem_cons, SendResult.sent.injEq, length_singleton, not_mem_nil, or_false] at hn
    omega
  · intro m hm
    simp only [skipping, List.foldl, Outbound.step, nil_append, cons_append, mem_cons, not_mem_nil, or_false] at hm
    rcases hm with rfl | rfl | rfl
    · exact Nat.zero_le _
    · exact Nat.zero_le _
    · exact Nat.zero_le _
  · rw [hwire]
    simp only [skipping, List.foldl, Outbound.step, nil_append, cons_append, flatMap_cons, prefix_append_right_inj]
    simp [onWire]

end SchemaInit.Dbus
