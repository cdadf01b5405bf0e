/-! How long to wait before a call is repeated. -/

namespace Rollout

class Backoff.Scale (α : Type) where
  ofNat : Nat → α
  mul : α → α → α
  recip : α → α
  /-- To the nearest natural number, a half away from zero, within 64 bits. -/
  round : α → Nat

namespace Backoff

instance : Scale Float where
  ofNat n := n.toUInt64.toFloat
  mul := (· * ·)
  recip x := 1.0 / x
  round x := x.round.toUInt64.toNat

variable {α : Type} [Scale α]

/-- The product of `r` and the `n`-th power of `m`, by repeated squaring. -/
def squaring (r m : α) (n : Nat) : α :=
  let r := if n % 2 = 1 then Scale.mul r m else r
  if h : n / 2 = 0 then r else squaring r (Scale.mul m m) (n / 2)
termination_by n
decreasing_by omega

def power (m : α) (e : Int) : α :=
  let p := squaring (Scale.ofNat 1) m e.natAbs
  if e < 0 then Scale.recip p else p

/-- The number of repetitions before this one, as a number of 32 bits with a sign. -/
def exponent (attempt : Nat) : Int :=
  let k := attempt - 1
  if k < Nat.pow 2 31 then k else (k : Int) - Nat.pow 2 32

/-- The delay that grows by a factor each time, up to a bound. -/
def growing (initial bound : Nat) (multiplier : α) (attempt : Nat) : Nat :=
  min (Scale.round (Scale.mul (Scale.ofNat initial) (power multiplier (exponent attempt)))) bound

/-- The delay that grows by the same amount each time, within 64 bits. -/
def steady (delay attempt : Nat) : Nat := min (delay * attempt) (Nat.pow 2 64 - 1)

end Backoff

/-- How delays grow from one repetition to the next; all delays are in milliseconds. -/
inductive Backoff
  | exponential (initial bound : UInt64) (multiplier : Float)
  | linear (delay : UInt64)
  | immediate

namespace Backoff

def delay : Backoff → Nat → Nat
  | exponential initial bound multiplier, attempt =>
    growing initial.toNat bound.toNat multiplier attempt
  | linear d, attempt => steady d.toNat attempt
  | immediate, _ => 0

def standard : Backoff := exponential 200 10000 2.0

/-- Shifts a delay by up to a tenth of it in either direction, as a random number decides. -/
def jittered (ms : Nat) (draw : UInt32) : Nat :=
  if ms = 0 then 0
  else
    let shift := draw.toFloat / 4294967295.0 * 0.2 - 0.1
    let x := ms.toUInt64.toFloat * (1.0 + shift)
    if x < 0.0 then 0 else x.toUInt64.toNat

end Backoff

end Rollout
