/-
# `SchemaInit.Engine.Schema` — the state a service is in and the weighted vote

`schema.h` numbers the states and the flags of three vectors; `schema_step`
counts the flags that are set and moves the instance if the count reaches the
threshold of its state.  The votes are taken in three states: `NEW_PROCESS` (F8,
may it be spawned), `RECOVERY` (F9, may it be tried again) and `FRICTION` (F6, the
last chance).  In `FULL_TRUST` the flags must all be there, or all be missing.
-/
import Mathlib.Algebra.Order.Ring.Int

namespace SchemaInit.Engine

inductive State where
  | fundamental
  | friction
  | settled
  | newProcess
  | recovery
  | fullTrust
  | perfect
  | excised
  | dormant
  deriving DecidableEq, Inhabited

def State.code : State → Nat
  | .fundamental => 1
  | .friction => 6
  | .settled => 7
  | .newProcess => 8
  | .recovery => 9
  | .fullTrust => 10
  | .perfect => 88
  | .excised => 76
  | .dormant => 75

structure Inst where
  state : State
  weight : Nat
  targetC : State
  prevState : State
  pid : Nat
  flags : Nat
  deriving DecidableEq, Inhabited

def schemaInstanceInit (pid : Nat) (target : State) : Inst where
  state := .newProcess
  weight := 0
  targetC := target
  prevState := .settled
  pid := pid
  flags := 0

/-! ## Flag words -/

def bits : List Bool → Nat
  | [] => 0
  | b :: l => b.toNat + 2 * bits l

def popcountLoop : Nat → Nat → Nat
  | 0, _ => 0
  | fuel + 1, v => v % 2 + popcountLoop fuel (v / 2)

def popcount (v : Nat) : Nat :=
  popcountLoop 32 v

theorem popcountLoop_bits {fuel : Nat} {l : List Bool} (h : l.length ≤ fuel) :
    popcountLoop fuel (bits l) = l.count true := by
  induction l generalizing fuel with
  | nil =>
    suffices hz : ∀ n, popcountLoop n 0 = 0 from hz fuel
    intro n
    induction n with
    | zero => rfl
    | succ n ih => simpa [popcountLoop] using ih
  | cons b l ih =>
    cases fuel with
    | zero => simp at h
    | succ fuel =>
      have htail := @ih fuel (by simpa using h)
      have hmod : (b.toNat + 2 * bits l) % 2 = b.toNat := by cases b <;> simp
      have hdiv : (b.toNat + 2 * bits l) / 2 = bits l := by have hb := b.toNat_lt; omega
      rw [bits, popcountLoop, hmod, hdiv, htail]
      cases b with
      | true => simp [Nat.add_comm]
      | false => simp

theorem popcount_bits {l : List Bool} (h : l.length ≤ 32) : popcount (bits l) = l.count true :=
  popcountLoop_bits h

theorem bits_lt (l : List Bool) : bits l < 2 ^ l.length := by
  induction l with
  | nil => simp [bits]
  | cons b l ih =>
    have hb := b.toNat_le
    rw [bits, List.length_cons, Nat.pow_succ]
    omega

/-! ## The step -/

def f8Mask : Nat := 0xFF
def f9Mask : Nat := 0xFFF
def f6Mask : Nat := 0x3F

def shiftThreshold8 : Nat := 5
def shiftThreshold9 : Nat := 8
def shiftThreshold6 : Nat := 3

def schemaStep (inst : Inst) (flags : Nat) : Inst :=
  let inst := { inst with flags := flags }
  match inst.state with
  | .newProcess =>
    let w := popcount (flags &&& f8Mask)
    { inst with
      weight := w
      prevState := .newProcess
      state := if w ≥ shiftThreshold8 then .fullTrust else .recovery }
  | .recovery =>
    let w := popcount (flags &&& f9Mask)
    { inst with weight := w, state := if w ≥ shiftThreshold9 then .settled else .friction }
  | .friction =>
    let w := popcount (flags &&& f6Mask)
    { inst with weight := w, state := if w ≥ shiftThreshold6 then .recovery else .excised }
  | .fullTrust =>
    if flags &&& f8Mask = f8Mask then { inst with state := .fundamental }
    else if flags = 0 then { inst with state := .excised }
    -- partial flags: it stays, and is asked again at the next tick
    else inst
  | _ => inst

theorem bits_and_mask {l : List Bool} {n m : Nat} (hl : l.length = n) (hm : m = 2 ^ n - 1) : bits l &&& m = bits l := by
  have hlt := bits_lt l
  subst hl hm
  rw [Nat.and_two_pow_sub_one_eq_mod]
  exact Nat.mod_eq_of_lt hlt

end SchemaInit.Engine
