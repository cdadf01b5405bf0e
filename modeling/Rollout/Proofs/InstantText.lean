import Rollout.Time.Reading
import Rollout.Proofs.CivilCalendar
import Rollout.Proofs.DecimalDigits

/-! Texts of instants. What is written for an instant tells date and time of day in fixed widths, and is
read as this instant. -/

namespace Rollout

open Decimal

namespace Time

variable {ds rest : List Char} {n : Nat}

theorem ne_space_of_isDigit {c : Char} (h : isDigit c = true) : isSpace c = false := by
  have hlow : 48 ≤ c.toNat ∧ c.toNat ≤ 57 := by
    simpa [isDigit, Char.le_def, UInt32.le_iff_toNat_le] using h
  simp only [isSpace, Bool.or_eq_false_iff, Bool.and_eq_false_imp, decide_eq_true_eq, decide_eq_false_iff_not]
  omega

theorem trim_spells {width : Nat} (h : Spells ds width n) (hwidth : 0 < width) :
    trim (ds ++ rest) = ds ++ rest := by
  cases ds with
  | nil => exact absurd h.length_eq (Nat.ne_of_lt hwidth)
  | cons d ds =>
    have hspace := ne_space_of_isDigit (h.isDigit_of_mem d List.mem_cons_self)
    rw [trim, List.cons_append, List.dropWhile_cons, hspace]
    rfl

theorem takeWhile_of_head? {p : Char → Bool} {cs : List Char} (h : ∀ c ∈ cs.head?, p c = false) :
    cs.takeWhile p = [] := by
  cases cs with
  | nil => rfl
  | cons c cs => rw [List.takeWhile_cons, h c rfl, if_neg Bool.false_ne_true]

/-- Digits end where no more of them may come, and before any other character. -/
theorem number_spells {width most : Nat} (h : Spells ds width n) (hwidth : 0 < width) (hmost : width ≤ most)
    (hend : width = most ∨ ∀ c ∈ rest.head?, isDigit c = false) (hn : n < Nat.pow 2 63) :
    number (ds ++ rest) most = .ok (n, rest) := by
  have hlength := h.length_eq
  -- either no room is left behind the digits, or something else than a digit is there
  have hstop : (rest.take (most - ds.length)).takeWhile isDigit = [] := by
    apply takeWhile_of_head?
    intro c hc
    rw [List.head?_take] at hc
    split at hc
    · cases hc
    · next hroom => exact hend.resolve_left (by omega) c hc
  have htake : ((ds ++ rest).take most).takeWhile isDigit = ds := by
    rw [List.take_append, List.take_of_length_le (by omega), List.takeWhile_append_of_pos h.isDigit_of_mem,
      hstop, List.append_nil]
  have hne : ds ≠ [] := fun he => by simp [he] at hlength; omega
  have hdrop : (ds ++ rest).drop ds.length = rest := List.drop_left
  have hbig : ¬ Nat.pow 2 63 ≤ n := Nat.not_le.mpr hn
  rw [number, htake, h.ofDigits_eq, hdrop]
  simp [hne, hbig]

theorem twoDigits_spells {low high : Nat} (h : Spells ds 2 n) (hlow : low ≤ n) (hhigh : n ≤ high)
    (hbound : high < 100) : twoDigits low high (ds ++ rest) = .ok (n, rest) := by
  have hn : n < Nat.pow 2 63 := by
    change n < 9223372036854775808
    omega
  rw [twoDigits, trim_spells h Nat.two_pos, number_spells h Nat.two_pos Nat.le.refl (Or.inl rfl) hn]
  exact if_pos ⟨hlow, hhigh⟩

theorem monthLength_le (year : Int) (month : Nat) : monthLength year month ≤ 31 := by
  unfold monthLength
  split
  · split <;> decide
  all_goals decide

theorem year_spells (h : Spells ds 4 n) (hn : n ≤ 9999) : year (ds ++ rest) = .ok ((n : Int), rest) := by
  have hn' : n < Nat.pow 2 63 := by
    change n < 9223372036854775808
    omega
  have hrange : -2147483648 ≤ (n : Int) ∧ (n : Int) ≤ 2147483647 := by omega
  have hnumber : number (ds ++ rest) 4 = .ok (n, rest) :=
    number_spells h (by decide) Nat.le.refl (Or.inl rfl) hn'
  rw [year, trim_spells h (by decide)]
  cases ds with
  | nil => exact absurd h.length_eq (by decide)
  | cons d ds =>
    have hd := h.isDigit_of_mem d List.mem_cons_self
    have hminus : d ≠ '-' := fun he => absurd (he ▸ hd) (by decide)
    have hplus : d ≠ '+' := fun he => absurd (he ▸ hd) (by decide)
    rw [List.cons_append] at hnumber ⊢
    simp [hminus, hplus, hnumber, hrange, Except.map, bind, Except.bind, pure, Except.pure]

theorem date_spells {y m d : List Char} {year month day : Nat} (hy : Spells y 4 year) (hm : Spells m 2 month)
    (hd : Spells d 2 day) (hyear : year ≤ 9999) (h : Date.Valid ⟨year, month, day⟩) :
    date (y ++ '-' :: (m ++ '-' :: (d ++ rest))) = .ok (⟨year, month, day⟩, rest) := by
  obtain ⟨-, -, hmonth, hmonth', hday, hday'⟩ := h
  have hminus (cs : List Char) : literal '-' ('-' :: cs) = .ok ((), cs) := rfl
  have hlength := hday'.trans (monthLength_le year month)
  simp only [date, year_spells hy hyear, hminus, twoDigits_spells hm hmonth hmonth' (by decide),
    twoDigits_spells hd hday hlength (by decide), bind, Except.bind, pure, Except.pure]

/-- The digits of a second that tell so many nanoseconds: the fewest of 0, 3, 6 or 9 that are exact. -/
inductive Fraction (nanos : Nat) : List Char → Prop
  | none (h : nanos = 0) : Fraction nanos []
  | digits {ds : List Char} {width n : Nat} (spells : Spells ds width n) (width_mem : width ∈ [3, 6, 9])
      (exact : nanos = n * Nat.pow 10 (9 - width))
      (fewest : ∀ w ∈ [0, 3, 6], w < width → ¬ Nat.pow 10 (9 - w) ∣ nanos) : Fraction nanos ('.' :: ds)

theorem fraction_of_fraction {nanos : Nat} {f : List Char} (h : Fraction nanos f)
    (hnanos : nanos < 1000000000)
    (hrest : ∀ c ∈ rest.head?, isDigit c = false ∧ c ≠ '.') : fraction (f ++ rest) = .ok (nanos, rest) := by
  cases h with
  | none hzero =>
    subst hzero
    cases rest with
    | nil => rfl
    | cons c rest => simp [fraction, (hrest c rfl).2, pure, Except.pure]
  | @digits ds width n spells hwidth exact fewest =>
    have hbounds : 0 < width ∧ width ≤ 9 := by
      obtain rfl | rfl | rfl : width = 3 ∨ width = 6 ∨ width = 9 := by simpa using hwidth
      · decide
      · decide
      · decide
    have hn : n < Nat.pow 2 63 := by
      have hle : n ≤ n * Nat.pow 10 (9 - width) := Nat.le_mul_of_pos_right n (Nat.pow_pos (by decide))
      change n < 9223372036854775808
      omega
    have hnumber := number_spells spells hbounds.1 hbounds.2 (Or.inr fun c hc => (hrest c hc).1) hn
    have hlength : (ds ++ rest).length - rest.length = width := by
      rw [List.length_append, Nat.add_sub_cancel, spells.length_eq]
    have hleft : rest.dropWhile isDigit = rest := by
      cases rest with
      | nil => rfl
      | cons c rest => rw [List.dropWhile_cons, (hrest c rfl).1, if_neg Bool.false_ne_true]
    rw [List.cons_append]
    simp only [fraction, hnumber, hlength, hleft, bind, Except.bind, pure, Except.pure, exact]

theorem fraction_padded {nanos width : Nat} (h : nanos < 1000000000) (hwidth : width ∈ [3, 6, 9])
    (hexact : Nat.pow 10 (9 - width) ∣ nanos)
    (hfewest : ∀ w ∈ [0, 3, 6], w < width → ¬ Nat.pow 10 (9 - w) ∣ nanos) :
    Fraction nanos ("." ++ padded width (nanos / Nat.pow 10 (9 - width))).toList := by
  have hscale : 0 < width ∧ Nat.pow 10 (9 - width) * Nat.pow 10 width = 1000000000 := by
    obtain rfl | rfl | rfl : width = 3 ∨ width = 6 ∨ width = 9 := by simpa using hwidth
    · decide
    · decide
    · decide
  have hn : nanos / Nat.pow 10 (9 - width) < Nat.pow 10 width := by
    apply Nat.div_lt_of_lt_mul
    rw [hscale.2]
    exact h
  rw [String.toList_append]
  exact .digits (spells_padded hscale.1 hn) hwidth (Nat.div_mul_cancel hexact).symm hfewest

theorem fraction_fractionText {nanos : Nat} (h : nanos < 1000000000) :
    Fraction nanos (fractionText nanos).toList := by
  have hwhole (hzero : nanos ≠ 0) : ¬ 1000000000 ∣ nanos :=
    Nat.not_dvd_of_pos_of_lt (Nat.pos_of_ne_zero hzero) h
  have hdvd {k : Nat} (hmod : nanos % k ≠ 0) : ¬ k ∣ nanos := fun hk => hmod (Nat.mod_eq_zero_of_dvd hk)
  unfold fractionText
  split_ifs with hzero hmillis hmicros
  · exact .none hzero
  · refine fraction_padded h (by decide) (Nat.dvd_of_mod_eq_zero hmillis) fun w hw hlt => ?_
    obtain rfl : w = 0 := by simp at hw; omega
    exact hwhole hzero
  · refine fraction_padded h (by decide) (Nat.dvd_of_mod_eq_zero hmicros) fun w hw hlt => ?_
    obtain rfl | rfl : w = 0 ∨ w = 3 := by simp at hw; omega
    · exact hwhole hzero
    · exact hdvd hmillis
  · have hpadded : Fraction nanos ("." ++ padded 9 (nanos / Nat.pow 10 0)).toList := by
      refine fraction_padded h (by decide) (Nat.one_dvd nanos) fun w hw hlt => ?_
      obtain rfl | rfl | rfl : w = 0 ∨ w = 3 ∨ w = 6 := by simpa using hw
      · exact hwhole hzero
      · exact hdvd hmillis
      · exact hdvd hmicros
    rwa [show Nat.pow 10 0 = 1 from rfl, Nat.div_one] at hpadded

theorem clock_spells {h m s f : List Char} {hour minute second nanos : Nat} (hh : Spells h 2 hour)
    (hm : Spells m 2 minute) (hs : Spells s 2 second) (hf : Fraction nanos f) (hour_lt : hour < 24)
    (minute_lt : minute < 60) (second_lt : second < 60) (hnanos : nanos < 1000000000)
    (hrest : ∀ c ∈ rest.head?, isDigit c = false ∧ c ≠ '.') :
    clock (h ++ ':' :: (m ++ ':' :: (s ++ (f ++ rest)))) =
      .ok ((hour * 3600 + minute * 60 + second, nanos), rest) := by
  have hcolon (cs : List Char) : literal ':' (':' :: cs) = .ok ((), cs) := rfl
  have hhour : hour ≤ 23 := by omega
  have hminute : minute ≤ 59 := by omega
  have hsecond : second ≤ 60 := by omega
  have hleap : second / 60 = 0 := Nat.div_eq_of_lt second_lt
  simp only [clock, twoDigits_spells hh (Nat.zero_le _) hhour (by decide), hcolon,
    twoDigits_spells hm (Nat.zero_le _) hminute (by decide),
    twoDigits_spells hs (Nat.zero_le _) hsecond (by decide), fraction_of_fraction hf hnanos hrest, hleap,
    Nat.sub_zero, Nat.zero_mul, Nat.add_zero, bind, Except.bind, pure, Except.pure]

theorem offset_z : offset (trim ['Z']) = .ok (0, []) := by
  have hword : (String.ofList (['Z'].take 3)).toLower ≠ "utc" := by
    intro he
    have hlength : (String.map Char.toLower (String.ofList (['Z'].take 3))).length = "utc".length :=
      congrArg String.length he
    rw [String.length_map] at hlength
    exact absurd hlength (by decide)
  rw [show trim ['Z'] = ['Z'] from rfl, offset, if_neg hword]
  rfl

end Time

namespace Instant

open Time

/-- In the years 0 to 9999, and not within a leap second. -/
structure Common (i : Instant) : Prop where
  era : (⟨0, 1, 1⟩ : Date).toDays * 86400 ≤ i.seconds ∧ i.seconds < (⟨10000, 1, 1⟩ : Date).toDays * 86400
  nanos_lt : i.nanos < 1000000000

/-- The texts that tell an instant in universal time: a valid date, a time of day, the digits of a second that
it takes, and a Z. -/
inductive Tells (i : Instant) : List Char → Prop
  | stamp {y m d h mi s f : List Char} {year month day hour minute second : Nat} (hy : Spells y 4 year)
      (hm : Spells m 2 month) (hd : Spells d 2 day) (hh : Spells h 2 hour) (hmi : Spells mi 2 minute)
      (hs : Spells s 2 second) (hf : Fraction i.nanos f) (year_le : year ≤ 9999)
      (valid : Date.Valid ⟨year, month, day⟩) (hour_lt : hour < 24) (minute_lt : minute < 60)
      (second_lt : second < 60) (seconds_eq : i.seconds =
        (⟨year, month, day⟩ : Date).toDays * 86400 + (hour * 3600 + minute * 60 + second : Nat)) :
      Tells i (y ++ '-' :: (m ++ '-' :: (d ++ 'T' :: (h ++ ':' :: (mi ++ ':' :: (s ++ (f ++ ['Z'])))))))

variable {i : Instant}

theorem Common.valid (h : i.Common) : (Date.ofDays (i.seconds / 86400)).Valid ∧
    0 ≤ (Date.ofDays (i.seconds / 86400)).year ∧ (Date.ofDays (i.seconds / 86400)).year ≤ 9999 := by
  obtain ⟨y, d, m, hplace⟩ := exists_place (i.seconds / 86400)
  have hera := h.era
  have hyear := hplace.year_bounds (by omega)
  exact ⟨hplace.valid hyear, hyear⟩

theorem Common.toList_render (h : i.Common) {d : Date} {s : Nat} (hd : d = Date.ofDays (i.seconds / 86400))
    (hs : s = (i.seconds % 86400).toNat) :
    i.render.toList = (padded 4 d.year.toNat).toList ++ '-' :: ((padded 2 d.month).toList ++ '-' ::
      ((padded 2 d.day).toList ++ 'T' :: ((padded 2 (s / 3600)).toList ++ ':' ::
        ((padded 2 (s / 60 % 60)).toList ++ ':' :: ((padded 2 (s % 60)).toList ++
          ((fractionText i.nanos).toList ++ ['Z'])))))) := by
  have hnanos : i.nanos / 1000000000 = 0 := Nat.div_eq_of_lt h.nanos_lt
  have hfraction : i.nanos % 1000000000 = i.nanos := Nat.mod_eq_of_lt h.nanos_lt
  rw [render, ← hd, ← hs, hnanos, hfraction, yearText, if_pos (hd ▸ h.valid.2)]
  simp only [String.toList_append, show "-".toList = ['-'] from rfl, show "T".toList = ['T'] from rfl,
    show ":".toList = [':'] from rfl, show "Z".toList = ['Z'] from rfl, List.append_assoc, List.cons_append,
    List.nil_append, Nat.add_zero]

theorem Common.tells_render (h : i.Common) : i.Tells i.render.toList := by
  obtain ⟨hvalid, hyear, hyear'⟩ := h.valid
  obtain ⟨d, hd⟩ : ∃ d, d = Date.ofDays (i.seconds / 86400) := ⟨_, rfl⟩
  obtain ⟨s, hs⟩ : ∃ s, s = (i.seconds % 86400).toNat := ⟨_, rfl⟩
  have hsecond : s < 86400 := by omega
  have hdate : (⟨(d.year.toNat : Int), d.month, d.day⟩ : Date) = d := by
    rw [Int.toNat_of_nonneg (hd ▸ hyear)]
  have hdays : d.toDays = i.seconds / 86400 := hd ▸ toDays_ofDays _
  rw [← hd] at hvalid hyear hyear'
  have hbounds := hvalid
  obtain ⟨-, -, hmonth, hmonth', hday, hday'⟩ := hbounds
  have hlength := hday'.trans (monthLength_le d.year d.month)
  have hfour : d.year.toNat < 10000 := by omega
  have htotal : i.seconds = d.toDays * 86400 + (s / 3600 * 3600 + s / 60 % 60 * 60 + s % 60 : Nat) := by
    rw [hdays]
    omega
  rw [h.toList_render hd hs]
  exact .stamp (spells_padded (by decide) hfour) (spells_two (by omega)) (spells_two (by omega))
    (spells_two (by omega)) (spells_two (by omega)) (spells_two (by omega)) (fraction_fractionText h.nanos_lt)
    (by omega) (by rwa [hdate]) (by omega) (by omega) (by omega) (by rwa [hdate])

theorem Common.read_of_tells (h : i.Common) {text : String} (ht : i.Tells text.toList) :
    Instant.read text = .ok i := by
  have hz : ∀ c ∈ ['Z'].head?, isDigit c = false ∧ c ≠ '.' := by
    intro c hc
    rw [← Option.some.inj hc]
    decide
  generalize hcs : text.toList = cs at ht
  cases ht with
  | @stamp y m d h' mi s f year month day hour minute second hy hm hd hh hmi hs hf year_le valid hour_lt
      minute_lt second_lt seconds_eq =>
    have hseconds : (⟨year, month, day⟩ : Date).toDays * 86400 +
        ((hour * 3600 + minute * 60 + second : Nat) : Int) - 0 = i.seconds := by
      rw [seconds_eq, Int.sub_zero]
    have hempty : (!(trim []).isEmpty) = false := rfl
    have heast : ¬ 86400 ≤ (0 : Int).natAbs := by decide
    rw [Instant.read, hcs]
    simp only [date_spells hy hm hd year_le valid,
      clock_spells hh hmi hs hf hour_lt minute_lt second_lt h.nanos_lt hz, offset_z, hempty, valid, heast,
      hseconds, h.valid.1, true_or, if_true, not_true_eq_false, if_false, Bool.false_eq_true, bind,
      Except.bind, pure, Except.pure]

end Instant

end Rollout
