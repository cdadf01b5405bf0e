import Mathlib.Order.Basic
import Rollout.Executor

/-! Which settings are accepted. All that a run can be started with are, and two kinds of others: a multiplier
that is not a number, since such a one is not below anything, and more tasks at once than there can be permits. -/

namespace Rollout

open Float.Model (UnpackedFloat)

namespace Settings

theorem compare_swap (a b : UnpackedFloat) : b.compare a = (a.compare b).map Ordering.swap := by
  have hdigits : ∀ (m n : Nat) (e k : Int),
      (compare k e).then (compare n m) = ((compare e k).then (compare m n)).swap := fun m n e k => by
    rw [Ordering.swap_then, ← Std.OrientedOrd.eq_swap, ← Std.OrientedOrd.eq_swap]
  cases a with
  | notANumber => cases b <;> rfl
  | infinity s => cases b with
    | infinity t => cases s <;> cases t <;> rfl
    | _ => cases s <;> rfl
  | zero s => cases b with
    | infinity t | finite t => cases t <;> rfl
    | _ => rfl
  | finite s m e pos => cases b with
    | infinity t => cases s <;> cases t <;> rfl
    | finite t n k pos' =>
      cases s <;> cases t
      · exact congrArg some (congrArg Ordering.swap (hdigits m n e k))
      · rfl
      · rfl
      · exact congrArg some (hdigits m n e k)
    | _ => cases s <;> rfl

theorem compare_eq_none_iff {a b : UnpackedFloat} :
    a.compare b = none ↔ a.isNaN = true ∨ b.isNaN = true := by
  cases a with
  | notANumber => exact ⟨fun _ => Or.inl rfl, fun _ => by cases b <;> rfl⟩
  | infinity s | zero s | finite s =>
    cases b with
    | notANumber => exact ⟨fun _ => Or.inr rfl, fun _ => by cases s <;> rfl⟩
    | infinity t | zero t | finite t =>
      refine ⟨fun h => ?_, fun h => h.elim (fun h => ?_) fun h => ?_⟩
      · cases s <;> cases t <;> cases h
      · cases h
      · cases h

section Floats

variable {x y : Float}

theorem le_iff_compare : x ≤ y ↔ (x.toModel.unpack.compare y.toModel.unpack).any (·.isLE) = true :=
  decide_eq_true_iff

theorem lt_iff_compare : x < y ↔ (x.toModel.unpack.compare y.toModel.unpack == some .lt) = true :=
  decide_eq_true_iff

theorem isNaN_of_le (h : x ≤ y) : x.isNaN = false ∧ y.isNaN = false := by
  by_contra hnan
  have hsome : x.isNaN = true ∨ y.isNaN = true := by
    revert hnan
    cases x.isNaN <;> cases y.isNaN <;> simp
  have hnone : x.toModel.unpack.compare y.toModel.unpack = none := compare_eq_none_iff.mpr hsome
  rw [le_iff_compare, hnone] at h
  cases h

/-- Of two numbers one is the greater or they are the same; what is not a number is neither. -/
theorem not_lt_iff : ¬ x < y ↔ y ≤ x ∨ x.isNaN = true ∨ y.isNaN = true := by
  have hnan : x.toModel.unpack.compare y.toModel.unpack = none ↔ x.isNaN = true ∨ y.isNaN = true :=
    compare_eq_none_iff
  rw [lt_iff_compare, le_iff_compare, compare_swap x.toModel.unpack, ← hnan]
  cases x.toModel.unpack.compare y.toModel.unpack with
  | none => simp
  | some o => cases o <;> simp

end Floats

end Settings

/-- As many permits as there can be at once: a word less its three highest bits. -/
def Config.permits : Nat := (Nat.pow 2 64 - 1) / 8

/-- What settings have to meet for a run. -/
structure Config.Runnable (c : Config) : Prop where
  concurrency : 1 ≤ c.concurrencyLimit.toNat ∧ c.concurrencyLimit.toNat ≤ permits
  deadline : ∀ ms, c.deadline = some ms → 1 ≤ ms.toNat
  polls : 1 ≤ c.phaseWait.maxPolls.toNat
  attempts : 1 ≤ c.retry.maxAttempts.toNat
  growth : ∀ {initial bound multiplier}, c.retry.backoff = .exponential initial bound multiplier →
    1.0 ≤ multiplier ∧ initial.toNat ≤ bound.toNat

/-- What accepted settings meet. -/
structure Config.InRange (c : Config) : Prop where
  concurrency : 1 ≤ c.concurrencyLimit.toNat
  deadline : ∀ ms, c.deadline = some ms → 1 ≤ ms.toNat
  polls : 1 ≤ c.phaseWait.maxPolls.toNat
  attempts : 1 ≤ c.retry.maxAttempts.toNat
  growth : ∀ {initial bound multiplier}, c.retry.backoff = .exponential initial bound multiplier →
    (1.0 ≤ multiplier ∨ multiplier.isNaN = true) ∧ initial.toNat ≤ bound.toNat

/-- What no check looks for. -/
def Config.overlooked (c : Config) : Bool :=
  decide (permits < c.concurrencyLimit.toNat) ||
    match c.retry.backoff with
    | .exponential _ _ multiplier => multiplier.isNaN
    | _ => false

/-- The ways in which settings are accepted. -/
inductive Executor.Accepts (c : Config) : Prop
  | checked (h : c.validate = .ok ())
  | read {yaml : String} (h : readConfig yaml = .ok c)
  | made {handlers : Registry} {x : Executor} (h : make handlers c = .ok x)
  | builtin {x : Executor} (h : builtin c = .ok x)

theorem RetryPolicy.validate_eq_ok_iff {p : RetryPolicy} : p.validate = .ok () ↔
    p.maxAttempts ≠ 0 ∧ ∀ {initial bound multiplier}, p.backoff = .exponential initial bound multiplier →
      ¬ multiplier < 1.0 ∧ initial ≤ bound := by
  unfold validate
  by_cases hattempts : p.maxAttempts = 0
  · simp [hattempts, throw, throwThe, MonadExceptOf.throw]
  cases p.backoff with
  | exponential initial bound multiplier =>
    by_cases hm : multiplier < 1.0
    · simp [hattempts, hm, throw, throwThe, MonadExceptOf.throw]
    · by_cases hb : bound < initial
      · simp [hattempts, hm, hb, throw, throwThe, MonadExceptOf.throw]
      · simp [hattempts, hm, hb, UInt64.not_lt.mp hb, pure, Except.pure]
  | linear | immediate => simp [hattempts, pure, Except.pure]

namespace Config

variable {c : Config}

theorem validate_eq_ok_iff : c.validate = .ok () ↔
    c.concurrencyLimit ≠ 0 ∧ c.deadline ≠ some 0 ∧ c.phaseWait.maxPolls ≠ 0 ∧ c.retry.validate = .ok () := by
  unfold validate
  by_cases hlimit : c.concurrencyLimit = 0
  · simp [hlimit, throw, throwThe, MonadExceptOf.throw]
  · by_cases hdeadline : c.deadline = some 0
    · simp [hlimit, hdeadline, throw, throwThe, MonadExceptOf.throw]
    · by_cases hpolls : c.phaseWait.maxPolls = 0
      · simp [hlimit, hdeadline, hpolls, throw, throwThe, MonadExceptOf.throw]
      · simp [hlimit, hdeadline, hpolls]

theorem one_le_toNat_iff {n : UInt64} : 1 ≤ n.toNat ↔ n ≠ 0 := by
  rw [Nat.one_le_iff_ne_zero, Ne, ← UInt64.toNat_zero, UInt64.toNat_inj]

theorem inRange_iff : c.InRange ↔ c.validate = .ok () := by
  have hpolls : 1 ≤ c.phaseWait.maxPolls.toNat ↔ c.phaseWait.maxPolls ≠ 0 := by
    rw [Nat.one_le_iff_ne_zero, Ne, ← UInt32.toNat_zero, UInt32.toNat_inj]
  have hattempts : 1 ≤ c.retry.maxAttempts.toNat ↔ c.retry.maxAttempts ≠ 0 := by
    rw [Nat.one_le_iff_ne_zero, Ne, ← UInt32.toNat_zero, UInt32.toNat_inj]
  have hmultiplier : ∀ m : Float, ¬ m < 1.0 ↔ 1.0 ≤ m ∨ m.isNaN = true := fun m => by
    have hone : ¬ (1.0 : Float).isNaN = true := Bool.false_ne_true
    rw [Settings.not_lt_iff, or_iff_left hone]
  rw [validate_eq_ok_iff, RetryPolicy.validate_eq_ok_iff]
  simp only [hmultiplier, UInt64.le_iff_toNat_le]
  constructor
  · rintro ⟨hlimit, hdeadline, hp, ha, hgrowth⟩
    refine ⟨one_le_toNat_iff.mp hlimit, fun hd => ?_, hpolls.mp hp, hattempts.mp ha, hgrowth⟩
    simpa using hdeadline 0 hd
  · rintro ⟨hlimit, hdeadline, hp, ha, hgrowth⟩
    refine ⟨one_le_toNat_iff.mpr hlimit, fun ms hms => one_le_toNat_iff.mpr fun he => hdeadline (he ▸ hms),
      hpolls.mpr hp, hattempts.mpr ha, hgrowth⟩

end Config

namespace Executor

variable {c : Config}

theorem checked_eq_ok_iff {c' : Config} : checked c = .ok c' ↔ c' = c ∧ c.validate = .ok () := by
  unfold checked
  cases c.validate <;> simp [eq_comm]

theorem accepts_iff : Accepts c ↔ c.InRange := by
  rw [Config.inRange_iff]
  refine ⟨fun h => ?_, .checked⟩
  cases h with
  | checked h => exact h
  | @read yaml h =>
    unfold readConfig at h
    cases hread : Config.ofYaml yaml with
    | error e => simp [hread] at h
    | ok c' =>
      simp only [hread] at h
      obtain ⟨rfl, hvalid⟩ := checked_eq_ok_iff.mp h
      exact hvalid
  | made h | builtin h =>
    cases hc : checked c with
    | error f => simp [make, builtin, hc, Except.map] at h
    | ok c' => exact (checked_eq_ok_iff.mp hc).2

theorem runnable_iff_inRange : c.Runnable ↔ c.InRange ∧ c.overlooked = false := by
  have hnumbers : c.overlooked = false ↔ c.concurrencyLimit.toNat ≤ Config.permits ∧
      ∀ {initial bound multiplier}, c.retry.backoff = .exponential initial bound multiplier →
        multiplier.isNaN = false := by
    unfold Config.overlooked
    rw [Bool.or_eq_false_iff, decide_eq_false_iff_not, Nat.not_lt]
    refine and_congr_right' ?_
    cases c.retry.backoff with
    | exponential i b m =>
      refine ⟨fun h j b' m' he => ?_, fun h => h rfl⟩
      cases he
      exact h
    | linear | immediate => exact ⟨fun _ j b' m' he => (by cases he), fun _ => rfl⟩
  rw [hnumbers]
  constructor
  · rintro ⟨⟨hlimit, hpermits⟩, hdeadline, hpolls, hattempts, hgrowth⟩
    refine ⟨⟨hlimit, hdeadline, hpolls, hattempts, fun h => ?_⟩, hpermits, fun h => ?_⟩
    · exact (hgrowth h).imp_left Or.inl
    · exact (Settings.isNaN_of_le (hgrowth h).1).2
  · rintro ⟨⟨hlimit, hdeadline, hpolls, hattempts, hgrowth⟩, hpermits, hnumber⟩
    refine ⟨⟨hlimit, hpermits⟩, hdeadline, hpolls, hattempts, fun h => (hgrowth h).imp_left fun hone => ?_⟩
    exact hone.resolve_right fun hnan => Bool.false_ne_true ((hnumber h).symm.trans hnan)

/-- What is accepted is in range. Just what is overlooked is accepted without being fit for a run. -/
theorem accepts_in_range (c : Config) :
    (Accepts c ↔ c.InRange) ∧ (c.Runnable ↔ Accepts c ∧ c.overlooked = false) :=
  ⟨accepts_iff, by rw [accepts_iff, runnable_iff_inRange]⟩

theorem exists_of_overlooked {yaml : String}
    (h : (readConfig yaml).toOption.any Config.overlooked = true) :
    ∃ c, readConfig yaml = .ok c ∧ ¬ c.Runnable := by
  cases hread : readConfig yaml with
  | error f => simp [hread, Except.toOption] at h
  | ok c =>
    rw [hread] at h
    refine ⟨c, rfl, fun hrun => ?_⟩
    have hseen := (runnable_iff_inRange.mp hrun).2
    exact Bool.false_ne_true (hseen.symm.trans h)

/-- A multiplier that is no number, and as many tasks at once as a word can tell. -/
theorem accepts_unordered :
    (∃ c, readConfig ("retry:\n  strategy: !exponential\n    initial_delay_ms: 1\n" ++
      "    max_delay_ms: 2\n    multiplier: .nan\n") = .ok c ∧ ¬ c.Runnable) ∧
    ∃ c, readConfig "concurrency_limit: 18446744073709551615" = .ok c ∧ ¬ c.Runnable :=
  ⟨exists_of_overlooked (by decide +kernel), exists_of_overlooked (by decide +kernel)⟩

end Executor

end Rollout
