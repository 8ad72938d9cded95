/-
# `SchemaInit.Dbus.Relay` — how large a relayed message gets

The inbound side and the outbound queue have the same cap: a message may be as
large as an empty queue can take.  Between the two the broker rewrites the
header.  It drops fields it does not know, writes each known field once, and
always writes a `SENDER` field with the sender's unique name, so the rewritten
message may be longer than the one that came in.

A message is taken by an empty queue exactly when `relaySize` is within the cap.

The parser reads nothing but the header (`parseFields_append`), so a message
with a large body can be given by its header alone.
-/
import SchemaInit.Dbus.Conn
import SchemaInit.Dbus.Parse

namespace SchemaInit.Dbus

open Conn List

variable (buf tail : Bytes) (off : Nat) (le : Bool) (w : Bytes) (code : UInt8)

/-! ## Alignment -/

theorem length_wAlign {a : Nat} (ha : 0 < a) : (wAlign w a).length = align w.length a := by
  have hle := le_align w.length ha
  simp only [wAlign, length_append, length_replicate]
  omega

theorem align_four_of_align_eight : align (align off 8 + 4) 4 = align off 8 + 4 := by
  simp only [align]
  omega

theorem length_u32Bytes (v : Nat) : (u32Bytes le v).length = 4 := by
  cases le <;> simp [u32Bytes]

/-! ## Field sizes -/

theorem length_wStrField {sigc : Char} (hsig : sigc ≠ 'g') (val : Bytes) :
    (wStrField le w code sigc val).length = align w.length 8 + (9 + val.length) := by
  simp only [wStrField, hsig, if_false, wU32, length_append, length_u32Bytes, length_cons,
    length_nil, length_wAlign _ (show 0 < 4 by decide), length_wAlign _ (show 0 < 8 by decide),
    align_four_of_align_eight]
  omega

theorem length_wSigField (val : Bytes) :
    (wStrField le w code 'g' val).length = align w.length 8 + (6 + val.length) := by
  simp only [wStrField, if_true, length_append, length_cons, length_nil, length_wAlign _ (show 0 < 8 by decide)]
  omega

theorem length_wU32Field (val : Nat) : (wU32Field le w code val).length = align w.length 8 + 8 := by
  simp [wU32Field, wU32, length_u32Bytes, length_wAlign _ (show 0 < 4 by decide),
    length_wAlign _ (show 0 < 8 by decide), align_four_of_align_eight]

/-- Where an array of header fields of these sizes ends, if it starts at `off`. -/
def fieldsEnd (off : Nat) (sizes : List Nat) : Nat :=
  sizes.foldl (fun off size => align off 8 + size) off

/-- The sizes of the fields of the rewritten header, in the order they are written. -/
def relayFieldSizes (m : WireMsg) (newSender : Bytes) : List Nat :=
  let str := fun s : Bytes => 9 + s.length
  (m.path.map str).toList ++ (m.interface.map str).toList ++ (m.member.map str).toList ++
    (m.errorName.map str).toList ++ (m.replySerial.map (fun _ => 8)).toList ++
    (m.destination.map str).toList ++ [str newSender] ++
    (m.signature.map (fun s => 6 + s.length)).toList ++ (m.unixFds.map (fun _ => 8)).toList

/-- The length of the rewritten message in closed form. -/
def relaySize (m : WireMsg) (newSender : Bytes) : Nat :=
  16 + align (fieldsEnd 0 (relayFieldSizes m newSender)) 8 + m.bodyLen

theorem fieldsEnd_append (xs ys : List Nat) : fieldsEnd off (xs ++ ys) = fieldsEnd (fieldsEnd off xs) ys := by
  simp [fieldsEnd]

theorem length_wOpt {α : Type} {field : Bytes → α → Bytes} {size : α → Nat}
    (hfield : ∀ w v, (field w v).length = align w.length 8 + size v) (w : Bytes) (o : Option α) :
    (wOpt field w o).length = fieldsEnd w.length (o.map size).toList := by
  cases o with
  | none => rfl
  | some v => exact hfield w v

theorem length_reforwardFields (m : WireMsg) (newSender : Bytes) :
    (reforwardFields m newSender).length = fieldsEnd 0 (relayFieldSizes m newSender) := by
  have hstr : ∀ (code : UInt8) (w v : Bytes),
      (wStrField m.endianLe w code 's' v).length = align w.length 8 + (9 + v.length) :=
    fun code w v => length_wStrField _ w code (by decide) v
  have hpath : ∀ (w v : Bytes), (wStrField m.endianLe w 1 'o' v).length = align w.length 8 + (9 + v.length) :=
    fun w v => length_wStrField _ w 1 (by decide) v
  simp only [reforwardFields, relayFieldSizes, fieldsEnd_append]
  rw [length_wOpt (fun w v => length_wU32Field _ w 9 v), length_wOpt (fun w v => length_wSigField _ w 8 v),
    hstr, length_wOpt (hstr 6), length_wOpt (fun w v => length_wU32Field _ w 5 v), length_wOpt (hstr 4),
    length_wOpt (hstr 3), length_wOpt (hstr 2), length_wOpt hpath]
  rfl

theorem length_sdbusWireReforward {buf : Bytes} {m : WireMsg} (h : sdbusWireParse buf = .complete m)
    (newSender : Bytes) : (sdbusWireReforward buf m newSender).length = relaySize m newSender := by
  obtain ⟨hlen, htotal, hfit⟩ := sdbusWireParse_complete h
  have hfixed : align 12 4 = 12 := rfl
  have hpad : ∀ n, align (16 + n) 8 = 16 + align n 8 := by
    intro n
    simp only [align]
    omega
  have htake : (buf.take 12).length = 12 := by
    rw [length_take]
    omega
  simp only [sdbusWireReforward, wU32, length_append, length_wAlign _ (show 0 < 8 by decide),
    length_wAlign _ (show 0 < 4 by decide), length_u32Bytes, htake, hfixed, length_reforwardFields, hpad,
    length_take, length_drop, relaySize]
  omega

/-! ## The cap -/

/-- The queue takes the message with its descriptors and the connection is not
flagged for it. -/
def Conn.Takes (c : Conn) (b : Bytes) (fds : List Int) : Prop :=
  (c.enqueue b fds).oq = c.oq ++ [{ b := b, off := 0, fds := fds.take maxPendingFds }] ∧
    (c.enqueue b fds).oqOver = c.oqOver

theorem Conn.takes_iff (c : Conn) (b : Bytes) (fds : List Int) : c.Takes b fds ↔ c.overflows b.length = false := by
  cases h : c.overflows b.length with
  | true => simp [Conn.Takes, enqueue_of_overflows h]
  | false => simp [Conn.Takes, enqueue_of_not_overflows h]

theorem Conn.takes_iff_of_empty {c : Conn} (hcounted : c.Counted) (hempty : c.oq = []) (b : Bytes)
    (fds : List Int) : c.Takes b fds ↔ b.length ≤ maxConnPending := by
  have hzero : c.oqBytes = 0 := by
    simpa [Conn.Counted, hempty] using hcounted
  rw [takes_iff, overflows, hzero, decide_eq_false_iff_not]
  simp only [maxConnPending, maxOutgoingBytes, sizeofOutchunk]
  omega

/-- A complete message that is relayed into an empty queue is taken exactly when
its rewritten form is within the cap. -/
theorem relay_taken_iff (buf : Bytes) (m : WireMsg) (newSender : Bytes) (dst : Conn) (fds : List Int)
    (hparse : sdbusWireParse buf = .complete m) (hcounted : dst.Counted) (hempty : dst.oq = []) :
    dst.Takes (sdbusWireReforward buf m newSender) fds ↔ relaySize m newSender ≤ maxConnPending := by
  rw [takes_iff_of_empty hcounted hempty, length_sdbusWireReforward hparse]

/-! ## A message at the cap -/

/-- The header fields of a signal `a.b.C` from `/a` with a byte array for body. -/
def arrayFields : Bytes :=
  let w := wStrField true [] 1 'o' (cstr "/a")
  let w := wStrField true w 2 's' (cstr "a.b")
  let w := wStrField true w 3 's' (cstr "C")
  wStrField true w 8 'g' (cstr "ay")

def arrayHeader (bodyLen : Nat) : Bytes :=
  [ch 'l', 4, 0, 1] ++ u32Bytes true bodyLen ++ u32Bytes true 1 ++ u32Bytes true arrayFields.length ++ arrayFields

def arraySignal (n : Nat) : Bytes :=
  arrayHeader (n + 4) ++ (u32Bytes true n ++ List.replicate n 0)

def arrayMsg (n : Nat) : WireMsg :=
  { endianLe := true, type := typeSignal, flags := 0, serial := 1, replySerial := none,
    path := some (cstr "/a"), interface := some (cstr "a.b"), member := some (cstr "C"),
    errorName := none, destination := none, sender := none, signature := some (cstr "ay"), arg0 := none,
    unixFds := none, bodyOffset := 72, bodyLen := n + 4, totalLen := 72 + (n + 4) }

/-- A short one is relayed. -/
theorem arraySignal_taken :
    (new 5 2 ⟨0, 0, 1, []⟩).Takes (sdbusWireReforward (arraySignal 300) (arrayMsg 300) (cstr ":1.1")) [] :=
  (relay_taken_iff _ _ _ _ []
    (by decide +kernel) (counted_new ..) rfl).mpr (by decide +kernel)

/-- The size of the array that makes the signal as long as the inbound side allows. -/
def capArray : Nat := maxConnPending - 76

theorem length_capSignal : (arraySignal capArray).length = maxConnPending := by
  simp only [arraySignal, length_append, length_u32Bytes, length_replicate]
  decide +kernel

theorem capSignal_header : byteAt (arraySignal capArray) 0 = ch 'l' ∧ byteAt (arraySignal capArray) 1 = 4 ∧
      byteAt (arraySignal capArray) 2 = 0 ∧ rdU32 (arraySignal capArray) 4 true = capArray + 4 ∧
      rdU32 (arraySignal capArray) 8 true = 1 ∧ rdU32 (arraySignal capArray) 12 true = 56 := by
  have hlen : (arrayHeader (capArray + 4)).length = 72 := by decide +kernel
  simp only [arraySignal]
  rw [byteAt_append_left _ _ (by omega), byteAt_append_left _ _ (by omega), byteAt_append_left _ _ (by omega),
    rdU32_append _ _ _ (by omega), rdU32_append _ _ _ (by omega), rdU32_append _ _ _ (by omega)]
  decide +kernel

theorem capSignal_parse : sdbusWireParse (arraySignal capArray) = .complete (arrayMsg capArray) := by
  obtain ⟨hfirst, htype, hflags, hbody, hserial, hfarr⟩ := capSignal_header
  have hlong : ¬ maxConnPending < 16 := by decide
  have hsizes : ¬ (56 > maxMsg ∨ capArray + 4 > maxMsg) := by decide
  have hoffset : align (16 + 56) 8 = 72 := rfl
  have htotal : 72 + (capArray + 4) = maxConnPending := by decide
  have hmax : ¬ maxConnPending > maxMsg := by decide
  have hfields : ∀ m, parseFields (arraySignal capArray) true 72 72 16 m =
      parseFields (arrayHeader (capArray + 4)) true 72 72 16 m :=
    parseFields_append _ _ true (le_of_eq (by decide +kernel)) 72 16
  have hread : parseFields (arrayHeader (capArray + 4)) true 72 72 16
      { endianLe := true, type := (4 : UInt8).toNat, flags := (0 : UInt8).toNat, serial := 1,
        replySerial := none, path := none, interface := none, member := none, errorName := none,
        destination := none, sender := none, signature := none, arg0 := none, unixFds := none,
        bodyOffset := 72, bodyLen := capArray + 4, totalLen := maxConnPending } = some (arrayMsg capArray) := by
    decide +kernel
  have harg : parseArg0 (arraySignal capArray) (arrayMsg capArray) = none := by
    have hnot : ¬ (((cstr "ay").head? = some (ch 's') ∨ (cstr "ay").head? = some (ch 'o')) ∧
        capArray + 4 ≥ 5) := by decide +kernel
    simp only [parseArg0, arrayMsg]
    exact if_neg hnot
  unfold sdbusWireParse
  simp only [length_capSignal, hfirst, htype, hflags, decide_true, hbody, hserial, hfarr, hoffset, htotal,
    hlong, hsizes, hmax, lt_irrefl, if_false, ne_eq, not_true_eq_false, false_and, hfields, hread, harg]
  rfl

/-- The message is taken in but not relayed: its `SENDER` field does not fit. -/
theorem capSignal_refused : sdbusWireParse (arraySignal capArray) = .complete (arrayMsg capArray) ∧
      (arrayMsg capArray).totalLen ≤ maxConnPending ∧
      ((new 4 1 ⟨0, 0, 1, []⟩).inAppend (arraySignal capArray)).inOver = false ∧
      ((new 5 2 ⟨0, 0, 1, []⟩).enqueue
        (sdbusWireReforward (arraySignal capArray) (arrayMsg capArray) (cstr ":1.1")) []).oqOver = true := by
  have hin : (new 4 1 ⟨0, 0, 1, []⟩).inBuf.length + (arraySignal capArray).length ≤ maxConnPending := by
    rw [length_capSignal]
    exact le_of_eq (Nat.zero_add _)
  have hbig : (new 5 2 ⟨0, 0, 1, []⟩).overflows
      (sdbusWireReforward (arraySignal capArray) (arrayMsg capArray) (cstr ":1.1")).length = true := by
    rw [length_sdbusWireReforward capSignal_parse]
    decide +kernel
  refine ⟨capSignal_parse, by decide, ?_, ?_⟩
  · rw [inAppend_of_le hin]
    rfl
  · rw [enqueue_of_overflows hbig]

end SchemaInit.Dbus
