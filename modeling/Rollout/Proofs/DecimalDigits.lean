import Rollout.Time.Reading
import Mathlib.Tactic.IntervalCases

/-! Decimal digits. What is written for a natural number reads as it, with leading zeros as well as
without. -/

namespace Rollout.Decimal

variable {ds : List Char} {width n : Nat}

theorem isDigit_eq (c : Char) : isDigit c = c.isDigit := by
  rw [Bool.eq_iff_iff]
  simp [isDigit, Char.isDigit, Char.le_def]

theorem isDigit_of_mem_toDigits {c : Char} (h : c ∈ Nat.toDigits 10 n) : isDigit c = true :=
  (isDigit_eq c).trans (Nat.isDigit_of_mem_toDigits (by decide) (by decide) h)

theorem ofDigits_toDigits (n : Nat) : ofDigits (Nat.toDigits 10 n) = n :=
  Nat.ofDigitChars_toDigits (by decide) (by decide)

/-- Nothing but zero itself begins with a zero. -/
theorem eq_zero_of_head?_toDigits (h : (Nat.toDigits 10 n).head? = some '0') : n = 0 := by
  induction n using Nat.strongRecOn with
  | ind n ih =>
    by_cases hlt : n < 10
    · rw [Nat.toDigits_of_lt_base hlt] at h
      interval_cases n <;> simp_all
    · obtain ⟨d, more, hd⟩ := List.exists_cons_of_ne_nil (Nat.toDigits_ne_nil (n := n / 10) (b := 10))
      rw [Nat.toDigits_of_base_le (by decide) (by omega), hd] at h
      have hzero := ih (n / 10) (by omega) (hd ▸ h)
      omega

/-- So many digits, which are read as this number. -/
structure Spells (ds : List Char) (width n : Nat) : Prop where
  length_eq : ds.length = width
  isDigit_of_mem : ∀ c ∈ ds, isDigit c = true
  ofDigits_eq : ofDigits ds = n

theorem spells_padded (hwidth : 0 < width) (h : n < Nat.pow 10 width) :
    Spells (Time.padded width n).toList width n := by
  have hlength : (Nat.toDigits 10 n).length ≤ width := (Nat.length_toDigits_le_iff (by decide) hwidth).mpr h
  rw [Time.padded, String.toList_ofList]
  refine ⟨?_, fun c hc => ?_, ?_⟩
  · rw [List.length_append, List.length_replicate]
    omega
  · rcases List.mem_append.mp hc with hc | hc
    · rw [List.eq_of_mem_replicate hc]
      rfl
    · exact isDigit_of_mem_toDigits hc
  · change Nat.ofDigitChars 10 _ 0 = n
    rw [Nat.ofDigitChars_append, Nat.ofDigitChars_replicate_zero, Nat.mul_zero]
    exact ofDigits_toDigits n

theorem spells_two (h : n < 100) : Spells (Time.padded 2 n).toList 2 n := spells_padded (by decide) h

end Rollout.Decimal
