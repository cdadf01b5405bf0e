import Mathlib.Algebra.Order.Field.Rat
import Mathlib.Algebra.Order.Field.Power
import Mathlib.Algebra.Order.Floor.Semiring
import Mathlib.Data.Rat.Floor
import Mathlib.Tactic.Linarith
import Mathlib.Tactic.NormNum
import Rollout.Retry

/-! How delays grow. With the numbers of a policy taken as they are and everything computed exactly, delays grow
from attempt to attempt and keep to their bound. But the repetitions are counted with a sign: from one attempt on
the count is below zero, where growing delays start again from nothing. -/

namespace Rollout

namespace Backoff

/-- The number that a float is, if it is one. -/
def number? (x : Float) : Option ℚ :=
  match x.toModel.unpack with
  | .finite s m e _ => some (s.apply m * 2 ^ e)
  | .zero _ => some 0
  | _ => none

instance : Scale ℚ where
  ofNat n := n
  mul := (· * ·)
  recip x := x⁻¹
  round x := min ⌊x + 1 / 2⌋₊ (2 ^ 64 - 1)

/-- The delay after an attempt if nothing is lost to rounding on the way. -/
def exactDelay? : Backoff → Nat → Option Nat
  | exponential initial bound multiplier, attempt =>
    (number? multiplier).map fun m => growing initial.toNat bound.toNat m attempt
  | s, attempt => some (s.delay attempt)

def isExponential : Backoff → Bool
  | exponential _ _ _ => true
  | _ => false

/-- All floats but the smallest have all their digits. -/
theorem normal_of_unpack {x : Float.Model} {s : Float.Model.UnpackedFloat.Sign} {m : Nat} {e : Int}
    {pos : 0 < m} (h : x.unpack = .finite s m e pos) : 2 ^ 52 ≤ m ∨ e = -1074 := by
  unfold Float.Model.unpack Float.Model.UnpackedFloat.unpack at h
  dsimp only at h
  rcases ite_eq_iff.mp h with ⟨-, h⟩ | ⟨-, h⟩
  · rcases ite_eq_iff.mp h with ⟨-, h⟩ | ⟨-, h⟩ <;> cases h
  rcases ite_eq_iff.mp h with ⟨hfirst, h⟩ | ⟨-, h⟩
  · obtain ⟨_, h⟩ | ⟨_, h⟩ := dite_eq_iff.mp h
    · cases h
    · injection h with _ _ he
      right
      rw [← he, hfirst]
      rfl
  · injection h with _ hm _
    left
    rw [← hm, BitVec.toNat_append]
    exact Nat.left_le_or

theorem one_le_of_number? {x : Float} {q : ℚ} (h : number? x = some q) (hx : ¬ x < 1.0) : 1 ≤ q := by
  have hcompare : x.toModel.unpack.compare (1.0 : Float).toModel.unpack ≠ some .lt := by
    intro hc
    refine hx (decide_eq_true ?_)
    change (x.toModel.unpack.compare (1.0 : Float).toModel.unpack == some .lt) = true
    rw [hc]
    rfl
  rw [show (1.0 : Float).toModel.unpack = .finite .positive (2 ^ 52) (-52) (by decide) from rfl] at hcompare
  unfold number? at h
  cases hu : x.toModel.unpack with
  | infinity s | notANumber =>
    rw [hu] at h
    cases h
  | zero s =>
    rw [hu] at hcompare
    exact absurd rfl hcompare
  | finite s m e pos =>
    rw [hu] at h hcompare
    cases s with
    | negative => exact absurd rfl hcompare
    | positive =>
      have hless : ((compare e (-52)).then (compare m (2 ^ 52))) ≠ .lt := fun hc =>
        hcompare (congrArg some hc)
      -- floats are compared by their exponents first, which is right only because digits are all there
      have hexponent : -52 ≤ e := by
        by_contra hlt
        exact hless (by rw [Std.compare_eq_lt.mpr (not_le.mp hlt)]; rfl)
      have hdigits : 2 ^ 52 ≤ m := by
        refine (normal_of_unpack hu).elim id fun he => ?_
        omega
      obtain rfl : ((m : ℤ) : ℚ) * 2 ^ e = q := Option.some.inj h
      calc (1 : ℚ) = (2 ^ 52 : ℕ) * 2 ^ (-52 : ℤ) := by norm_num
        _ ≤ m * 2 ^ e := by gcongr; norm_num
        _ = (m : ℤ) * 2 ^ e := by rw [Int.cast_natCast]

section Exact

variable (r m : ℚ)

theorem squaring_eq (n : Nat) : squaring r m n = r * m ^ n := by
  induction n using Nat.strong_induction_on generalizing r m with
  | _ n ih =>
    have hodd : (if n % 2 = 1 then r * m else r) = r * m ^ (n % 2) := by
      rcases Nat.mod_two_eq_zero_or_one n with h | h <;> simp [h]
    have hsplit : m ^ n = m ^ (n % 2) * (m * m) ^ (n / 2) := by
      rw [← pow_two, ← pow_mul, ← pow_add, Nat.mod_add_div]
    -- the product so far takes in the last binary digit of the exponent, the base its other digits
    rw [squaring]
    change (if h : n / 2 = 0 then (if n % 2 = 1 then r * m else r)
      else squaring (if n % 2 = 1 then r * m else r) (m * m) (n / 2)) = _
    rw [hodd, hsplit]
    split_ifs with hlast
    · simp [hlast]
    · rw [ih (n / 2) (by omega), mul_assoc]

theorem power_eq (e : Int) : power m e = m ^ e := by
  have hpower : power m e = if e < 0 then (squaring 1 m e.natAbs)⁻¹ else squaring 1 m e.natAbs := by
    rw [← Nat.cast_one]
    rfl
  rw [hpower, squaring_eq, one_mul]
  cases e with
  | ofNat n => rfl
  | negSucc n =>
    rw [if_pos (Int.negSucc_lt_zero n), zpow_negSucc]
    rfl

theorem growing_eq (initial bound attempt : Nat) :
    growing initial bound m attempt =
      min (min ⌊initial * m ^ exponent attempt + 1 / 2⌋₊ (2 ^ 64 - 1)) bound := by
  rw [growing, power_eq]
  rfl

end Exact

theorem growing_mono {m : ℚ} (hm : 1 ≤ m) {a b : Nat} (h : exponent a ≤ exponent b) (initial bound : Nat) :
    growing initial bound m a ≤ growing initial bound m b := by
  rw [growing_eq, growing_eq]
  have hpower : m ^ exponent a ≤ m ^ exponent b := zpow_le_zpow_right₀ hm h
  gcongr

theorem exponent_le_exponent {a b : Nat} (hab : a ≤ b) (hb : b < 2 ^ 32) (h : b ≤ 2 ^ 31 ∨ 2 ^ 31 < a) :
    exponent a ≤ exponent b := by
  unfold exponent
  simp only [Nat.pow_eq]
  split_ifs <;> omega

theorem exponent_le_of_wrap {a b : Nat} (ha : a ≤ 2 ^ 31) (hwrap : 2 ^ 31 < b) (hb : b < 2 ^ 32) :
    exponent b ≤ exponent a := by
  unfold exponent
  simp only [Nat.pow_eq]
  split_ifs <;> omega

theorem steady_mono (d : Nat) {a b : Nat} (hab : a ≤ b) : steady d a ≤ steady d b := by
  unfold steady
  gcongr

end Backoff

namespace RetryPolicy

open Backoff

/-- What is said of the delays `x` after the attempt `a` and `y` after the attempt `b`, computed exactly, and of
the delay that there is after `a`. The bound is kept however the powers are computed. -/
structure Grows (p : RetryPolicy) (a b x y : Nat) : Prop where
  grows : (p.backoff.isExponential = true → b ≤ 2 ^ 31 ∨ 2 ^ 31 < a) → x ≤ y
  drops : p.backoff.isExponential = true → a ≤ 2 ^ 31 → 2 ^ 31 < b → y ≤ x
  powers : ∀ initial bound multiplier, p.backoff = .exponential initial bound multiplier →
    ∃ m, number? multiplier = some m ∧ 1 ≤ m ∧
      x = min (min ⌊initial.toNat * m ^ exponent a + 1 / 2⌋₊ (2 ^ 64 - 1)) bound.toNat
  capped : ∀ initial bound multiplier, p.backoff = .exponential initial bound multiplier →
    x ≤ bound.toNat ∧ ∀ draw, p.delayDrawn draw a ≤ bound.toNat
  linear : ∀ d, p.backoff = .linear d →
    x = min (d.toNat * a) (2 ^ 64 - 1) ∧ ∀ draw, p.delayDrawn draw a = x
  immediate : p.backoff = .immediate → x = 0 ∧ ∀ draw, p.delayDrawn draw a = x

variable {p : RetryPolicy} {initial bound : UInt64} {multiplier : Float}

theorem not_lt_one_of_validate (valid : p.validate = .ok ())
    (h : p.backoff = .exponential initial bound multiplier) : ¬ multiplier < 1.0 := by
  intro hlt
  unfold validate at valid
  simp only [h, hlt, if_true] at valid
  split_ifs at valid

theorem delayDrawn_of_plain (plain : p.jitter = false) (draw : UInt32) (attempt : Nat) :
    p.delayDrawn draw attempt = p.backoff.delay attempt := by
  rw [delayDrawn, plain]
  rfl

theorem grows_of_exponential (valid : p.validate = .ok ()) (plain : p.jitter = false)
    (h : p.backoff = .exponential initial bound multiplier) {a b x y : Nat} (hab : a ≤ b)
    (hb : b < 2 ^ 32) (hx : p.backoff.exactDelay? a = some x) (hy : p.backoff.exactDelay? b = some y) :
    p.Grows a b x y := by
  rw [h, exactDelay?] at hx hy
  obtain ⟨m, hm, rfl⟩ := Option.map_eq_some_iff.mp hx
  obtain ⟨m', hm', rfl⟩ := Option.map_eq_some_iff.mp hy
  obtain rfl : m = m' := Option.some.inj (hm.symm.trans hm')
  have hone := one_le_of_number? hm (not_lt_one_of_validate valid h)
  refine ⟨fun hside => ?_, fun _ ha hwrap => ?_, fun i c k hi => ?_, fun i c k hi => ?_, fun d hd => ?_,
    fun hd => ?_⟩
  · exact growing_mono hone (exponent_le_exponent hab hb (hside (by rw [h]; rfl))) _ _
  · exact growing_mono hone (exponent_le_of_wrap ha hwrap hb) _ _
  · cases h.symm.trans hi
    exact ⟨m, hm, hone, growing_eq m _ _ _⟩
  · cases h.symm.trans hi
    refine ⟨Nat.min_le_right _ _, fun draw => ?_⟩
    rw [delayDrawn_of_plain plain, h]
    exact Nat.min_le_right _ _
  · cases h.symm.trans hd
  · cases h.symm.trans hd

theorem grows_of_delay (plain : p.jitter = false) (h : p.backoff.isExponential = false) {a b x y : Nat}
    (hab : a ≤ b) (hx : p.backoff.exactDelay? a = some x) (hy : p.backoff.exactDelay? b = some y) :
    p.Grows a b x y := by
  obtain ⟨maxAttempts, s, jitter⟩ := p
  cases s with
  | exponential => cases h
  | linear d =>
    obtain rfl : steady d.toNat a = x := Option.some.inj hx
    obtain rfl : steady d.toNat b = y := Option.some.inj hy
    refine ⟨fun _ => steady_mono d.toNat hab, nofun, nofun, nofun, fun e he => ?_, nofun⟩
    cases he
    exact ⟨rfl, fun draw => delayDrawn_of_plain plain draw a⟩
  | immediate =>
    obtain rfl : 0 = x := Option.some.inj hx
    obtain rfl : 0 = y := Option.some.inj hy
    exact ⟨fun _ => Nat.le_refl 0, nofun, nofun, nofun, nofun,
      fun _ => ⟨rfl, fun draw => delayDrawn_of_plain plain draw a⟩⟩

/-- The delays of a valid policy without jitter grow from attempt to attempt, exponential ones in either half of
the attempts: in the second half no delay is longer than any in the first. -/
theorem delay_growth (valid : p.validate = .ok ()) (plain : p.jitter = false) {a b x y : Nat} (hab : a ≤ b)
    (hb : b < 2 ^ 32) (hx : p.backoff.exactDelay? a = some x) (hy : p.backoff.exactDelay? b = some y) :
    p.Grows a b x y := by
  cases hs : p.backoff with
  | exponential initial bound multiplier => exact grows_of_exponential valid plain hs hab hb hx hy
  | linear d => exact grows_of_delay plain (by rw [hs]; rfl) hab hx hy
  | immediate => exact grows_of_delay plain (by rw [hs]; rfl) hab hx hy

def doubling : RetryPolicy := ⟨5, .exponential 200 200 2.0, false⟩

theorem number?_two : number? 2.0 = some 2 := by
  have hnumber : number? 2.0 = some ((((2 ^ 52 : ℕ) : ℤ) : ℚ) * 2 ^ (-51 : ℤ)) := rfl
  rw [hnumber]
  norm_num

theorem exactDelay?_doubling (attempt : Nat) : doubling.backoff.exactDelay? attempt =
    some (min (min ⌊(200 : ℚ) * 2 ^ exponent attempt + 1 / 2⌋₊ (2 ^ 64 - 1)) 200) := by
  have hdelay : doubling.backoff.exactDelay? attempt =
      (number? 2.0).map fun m => growing 200 200 m attempt := rfl
  rw [hdelay, number?_two, Option.map_some, growing_eq]
  rfl

theorem exactDelay?_doubling_of_nonneg {attempt : Nat} (h : 0 ≤ exponent attempt) :
    doubling.backoff.exactDelay? attempt = some 200 := by
  have hpower : (1 : ℚ) ≤ 2 ^ exponent attempt := one_le_zpow₀ (by norm_num) h
  have hfloor : 200 ≤ ⌊(200 : ℚ) * 2 ^ exponent attempt + 1 / 2⌋₊ := by
    apply Nat.le_floor
    push_cast
    linarith
  rw [exactDelay?_doubling]
  exact congrArg some (by omega)

/-- With the count below zero there is next to no delay, though the first delay is also the bound. -/
theorem exactDelay?_doubling_wrapped : doubling.backoff.exactDelay? (2 ^ 31 + 1) = some 0 := by
  have hexponent : exponent (2 ^ 31 + 1) ≤ -9 := by decide
  have hsmall : (200 : ℚ) * 2 ^ exponent (2 ^ 31 + 1) + 1 / 2 < 1 := by
    have hpower : (2 : ℚ) ^ exponent (2 ^ 31 + 1) ≤ 2 ^ (-9 : ℤ) :=
      zpow_le_zpow_right₀ (by norm_num) hexponent
    calc (200 : ℚ) * 2 ^ exponent (2 ^ 31 + 1) + 1 / 2 ≤ 200 * 2 ^ (-9 : ℤ) + 1 / 2 := by gcongr
      _ < 1 := by norm_num
  rw [exactDelay?_doubling, Nat.floor_eq_zero.mpr hsmall]
  rfl

theorem delay_growth_doubling : doubling.Grows 1 3 200 200 ∧ doubling.Grows 1 (2 ^ 31 + 1) 200 0 :=
  ⟨delay_growth rfl rfl (by decide) (by decide) (exactDelay?_doubling_of_nonneg (by decide))
      (exactDelay?_doubling_of_nonneg (by decide)),
    delay_growth rfl rfl (by decide) (by decide) (exactDelay?_doubling_of_nonneg (by decide))
      exactDelay?_doubling_wrapped⟩

/-- Delays do not grow all the way. -/
theorem delay_falls : ¬ ∀ (p : RetryPolicy) (a b x y : Nat), p.validate = .ok () → p.jitter = false →
    1 ≤ a → a ≤ b → b < 2 ^ 32 → p.backoff.exactDelay? a = some x → p.backoff.exactDelay? b = some y →
    x ≤ y := by
  intro hall
  have hle := hall doubling 1 (2 ^ 31 + 1) 200 0 rfl rfl (by decide) (by decide) (by decide)
    (exactDelay?_doubling_of_nonneg (by decide)) exactDelay?_doubling_wrapped
  omega

end RetryPolicy

end Rollout
