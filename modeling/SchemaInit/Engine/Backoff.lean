/-
# `SchemaInit.Engine.Backoff` — how long a service is parked

`park` counts in eight bits and shifts 300 by the count.  A critical or `no_excise`
service is parked as often as it fails, so the shift leaves the 64 bits of a `long`: the
56th delay in a row is negative, the 63rd is zero, and the service is tried again at once.
The machine takes the shift modulo 64 (`parkDelay`), so that after 64 parks the backoff
starts over.  `park_patient_iff` says for every call in a row whether its delay is one.
-/
import SchemaInit.Engine.Stop

namespace SchemaInit.Engine

def Service.parks (ws : Nat → World) (s : Service) : Nat → Service
  | 0 => s
  | n + 1 => (s.parks ws n).park (ws n)

/-- The delay that the call after `n` others computes: how far ahead it sets `dormant_until`. -/
def Service.parkedFor (ws : Nat → World) (s : Service) (n : Nat) : Int :=
  (s.parks ws (n + 1)).rt.dormantUntil.sec - (ws n).now.sec

/-- The call after `n` others parks the service for 5 minutes to an hour, and not for a shorter time than the
call before it. -/
structure Service.Patient (ws : Nat → World) (s : Service) (n : Nat) : Prop where
  long : 300 ≤ s.parkedFor ws n
  short : s.parkedFor ws n ≤ 3600
  grows : ∀ m, n = m + 1 → s.parkedFor ws m ≤ s.parkedFor ws n

theorem dormantCount_parks (ws : Nat → World) (s : Service) (n : Nat) :
    (s.parks ws n).rt.dormantCount = s.rt.dormantCount + UInt8.ofNat n := by
  induction n with
  | zero => exact (UInt8.add_zero _).symm
  | succ n ih =>
    show (s.parks ws n).rt.dormantCount + 1 = _
    rw [ih, UInt8.ofNat_add, UInt8.add_assoc]
    rfl

def shiftDelay (k : Nat) : Int :=
  let delay := Int.bmod (300 * 2 ^ k) (2 ^ 64)
  if delay > 3600 then 3600 else delay

theorem parkDelay_add (c : UInt8) (n : Nat) :
    Service.parkDelay (c + UInt8.ofNat n + 1) = shiftDelay ((c.toNat + n) % 64) := by
  have hmod : ((c + UInt8.ofNat n + 1).toNat + 63) % 64 = (c.toNat + n) % 64 := by
    have hc := c.toNat_lt
    rw [UInt8.toNat_add, UInt8.toNat_add, UInt8.toNat_ofNat']
    simp only [UInt8.toNat_one]
    omega
  exact congrArg shiftDelay hmod

theorem parkedFor_eq (ws : Nat → World) (s : Service) (n : Nat) :
    s.parkedFor ws n = shiftDelay ((s.rt.dormantCount.toNat + n) % 64) := by
  have huntil : s.parkedFor ws n = Service.parkDelay ((s.parks ws n).rt.dormantCount + 1) := by
    show (ws n).now.sec + _ - (ws n).now.sec = _
    omega
  rw [huntil, dormantCount_parks, parkDelay_add]

/-- The shifts that leave the range: the sign bit is set, or nothing is left of the 300. -/
def badShifts : List Nat := [55, 58, 60, 61, 62, 63]

theorem shiftDelay_range : ∀ k < 64, (300 ≤ shiftDelay k ∧ shiftDelay k ≤ 3600) ↔ k ∉ badShifts := by
  decide +kernel

theorem shiftDelay_grows : ∀ k < 64, (k + 1) % 64 ∉ badShifts → shiftDelay k ≤ shiftDelay ((k + 1) % 64) := by
  decide +kernel

/-- The delay of any call of `park` in a row is between 5 minutes and an hour and not shorter than the one
before, exactly if the count it finds, as a shift of 64 bits, is none of 55, 58, 60, 61, 62 and 63. -/
theorem park_patient_iff (ws : Nat → World) (s : Service) (n : Nat) :
    s.Patient ws n ↔ (s.rt.dormantCount.toNat + n) % 64 ∉ badShifts := by
  have hrange := shiftDelay_range _ (Nat.mod_lt (s.rt.dormantCount.toNat + n) (by decide))
  rw [← parkedFor_eq ws s n] at hrange
  constructor
  · intro h
    exact hrange.mp ⟨h.long, h.short⟩
  · intro h
    obtain ⟨hlong, hshort⟩ := hrange.mpr h
    refine ⟨hlong, hshort, ?_⟩
    rintro m rfl
    have hnext : (s.rt.dormantCount.toNat + (m + 1)) % 64 = ((s.rt.dormantCount.toNat + m) % 64 + 1) % 64 := by omega
    rw [hnext] at h
    rw [parkedFor_eq, parkedFor_eq, hnext]
    exact shiftDelay_grows _ (Nat.mod_lt _ (by decide)) h

/-- A critical service that was never parked: the friction verdict parks it every time, and the 56th time until a
moment long past. -/
theorem park_into_the_past : ∃ s : Service, s.flags.critical = true ∧ s.rt.dormantCount = 0 ∧
    (∀ w, s.frictionVerdict w = s.park w) ∧ s.parkedFor (fun _ => {}) 55 < 0 ∧ s.parkedFor (fun _ => {}) 62 = 0 := by
  refine ⟨Service.fresh default { critical := true }, rfl, rfl, fun w => rfl, ?_, ?_⟩
  · decide +kernel
  · decide +kernel

end SchemaInit.Engine
