import Mathlib
import Volley.Number.Decimal
import Volley.Proofs.Number.Powers

/-!
# Shortest digits

The decimal that is written for a single-precision number lies between the bounds from which numbers
round to it. It has at most nine digits, and if it has more than seven it is far from either bound.
-/

namespace Volley

open Float.Model

theorem lt_pow_length_digits (n : Nat) : n < 10 ^ (digits n).length := by
  induction n using digits.induct with
  | case1 n hlt =>
      rw [digits, if_pos hlt, List.length_singleton]
      exact hlt
  | case2 n hge ih =>
      rw [digits, if_neg hge, List.length_append, List.length_singleton, Nat.pow_succ]
      omega

/-! ## Grids -/

namespace Interval

variable {i : Interval} {tie : Tie} {places n : Nat}

theorem div_mul_bounds (value places : Nat) :
    value / 10 ^ places * 10 ^ places ≤ value ∧ value < (value / 10 ^ places + 1) * 10 ^ places :=
  ⟨Nat.div_mul_le_self _ _, Nat.lt_mul_of_div_lt (Nat.lt_succ_self _) (Nat.pow_pos (by decide))⟩

/-- A multiple next to the value that lies in the interval, and is not farther from it than the one
on its other side unless that one lies outside. -/
structure Chosen (i : Interval) (places n : Nat) : Prop where
  contained : i.contains (n * 10 ^ places) = true
  side : (n * 10 ^ places ≤ i.value ∧ i.value < (n + 1) * 10 ^ places ∧
      (2 * i.value ≤ (2 * n + 1) * 10 ^ places ∨ i.contains ((n + 1) * 10 ^ places) = false)) ∨
    ∃ d, n = d + 1 ∧ d * 10 ^ places ≤ i.value ∧ i.value < (d + 1) * 10 ^ places ∧
      ((2 * d + 1) * 10 ^ places ≤ 2 * i.value ∨ i.contains (d * 10 ^ places) = false)

theorem chosen_of_onGrid? (h : i.onGrid? tie places = some n) : i.Chosen places n := by
  obtain ⟨hbelow, habove⟩ := div_mul_bounds i.value places
  rw [onGrid?, Nat.pow_eq] at h
  generalize i.value / 10 ^ places = down at h hbelow habove
  have hmiddle : (down + (down + 1)) * 10 ^ places = (2 * down + 1) * 10 ^ places := by
    rw [← Nat.add_assoc, Nat.two_mul]
  have hdown (hcontains : i.contains (down * 10 ^ places) = true)
      (hnear : 2 * i.value ≤ (2 * down + 1) * 10 ^ places ∨
        i.contains ((down + 1) * 10 ^ places) = false) :
      i.Chosen places down := ⟨hcontains, .inl ⟨hbelow, habove, hnear⟩⟩
  have hup (hcontains : i.contains ((down + 1) * 10 ^ places) = true)
      (hnear : (2 * down + 1) * 10 ^ places ≤ 2 * i.value ∨
        i.contains (down * 10 ^ places) = false) :
      i.Chosen places (down + 1) := ⟨hcontains, .inr ⟨down, rfl, hbelow, habove, hnear⟩⟩
  split at h
  · cases h
  · rename_i hin hout
    obtain rfl := Option.some.inj h
    exact hdown hin (.inr hout)
  · rename_i hout hin
    obtain rfl := Option.some.inj h
    exact hup hin (.inr hout)
  · rename_i hin hin'
    rw [hmiddle] at h
    split at h
    · rename_i hcompare
      obtain rfl := Option.some.inj h
      exact hdown hin (.inl (Nat.compare_eq_lt.mp hcompare).le)
    · rename_i hcompare
      obtain rfl := Option.some.inj h
      exact hup hin' (.inl (Nat.compare_eq_gt.mp hcompare).le)
    · rename_i hcompare
      have heq := Nat.compare_eq_eq.mp hcompare
      split at h
      · obtain rfl := Option.some.inj h
        exact hdown hin (.inl heq.le)
      · obtain rfl := Option.some.inj h
        exact hup hin' (.inl heq.ge)

theorem high_le_of_not_contains (hlow : i.low < n) (h : i.contains n = false) : i.high ≤ n := by
  rw [contains] at h
  split at h <;> rw [decide_eq_false_iff_not] at h <;> omega

theorem le_low_of_not_contains (hhigh : n < i.high) (h : i.contains n = false) : n ≤ i.low := by
  rw [contains] at h
  split at h <;> rw [decide_eq_false_iff_not] at h <;> omega

/-- A grid without a multiple in the interval is at least as wide as the interval. -/
theorem high_le_of_onGrid? (hlow : i.low < i.value) (hhigh : i.value < i.high)
    (h : i.onGrid? tie places = none) :
    i.high ≤ i.low + 10 ^ places := by
  obtain ⟨hbelow, habove⟩ := div_mul_bounds i.value places
  rw [onGrid?, Nat.pow_eq] at h
  generalize i.value / 10 ^ places = down at h hbelow habove
  split at h
  · rename_i hout hout'
    have hdown := le_low_of_not_contains (hbelow.trans_lt hhigh) hout
    have hup := high_le_of_not_contains (hlow.trans habove) hout'
    rw [Nat.succ_mul] at hup
    exact hup.trans (Nat.add_le_add_right hdown _)
  · cases h
  · cases h
  · split at h
    · cases h
    · cases h
    · split at h <;> cases h

theorem Chosen.mul_le (h : i.Chosen places n) : n * 10 ^ places ≤ i.value + 10 ^ places := by
  rcases h.side with ⟨hbelow, -, -⟩ | ⟨d, rfl, hbelow, -, -⟩
  · exact hbelow.trans (Nat.le_add_right _ _)
  · rw [Nat.succ_mul]
    omega

/-- The grid that is found is the value's own or has a multiple in the interval,
and the next coarser one has none. -/
theorem coarsest_spec (i : Interval) (tie : Tie) (places : Nat) :
    ∃ j : Nat, (i.coarsest tie places).exponent = j ∧
      (j = 0 ∧ (i.coarsest tie places).coefficient = i.value ∨
        i.Chosen j (i.coarsest tie places).coefficient) ∧
        (j = places ∨ i.onGrid? tie (j + 1) = none) := by
  induction places with
  | zero => exact ⟨0, rfl, .inl ⟨rfl, rfl⟩, .inl rfl⟩
  | succ places ih =>
      rw [coarsest]
      cases hgrid : i.onGrid? tie (places + 1) with
      | some n => exact ⟨places + 1, rfl, .inr (chosen_of_onGrid? hgrid), .inl rfl⟩
      | none =>
          obtain ⟨j, hexponent, hfound, rfl | hcoarser⟩ := ih
          · exact ⟨j, hexponent, hfound, .inr hgrid⟩
          · exact ⟨j, hexponent, hfound, .inr hcoarser⟩

end Interval

theorem Decimal.trim_spec (d : Decimal) (hd : 0 < d.coefficient) :
    0 < d.trim.coefficient ∧ d.trim.coefficient ≤ d.coefficient ∧
      (d.trim.coefficient * 10 ^ d.trim.exponent : ℝ) = d.coefficient * 10 ^ d.exponent := by
  induction d using Decimal.trim.induct with
  | case1 d hzero ih =>
      rw [trim, if_pos hzero]
      obtain ⟨hpos, hle, hvalue⟩ := ih (show 0 < d.coefficient / 10 by omega)
      refine ⟨hpos, hle.trans (Nat.div_le_self _ _), hvalue.trans ?_⟩
      have hsplit : (d.coefficient : ℝ) = (d.coefficient / 10 : ℕ) * 10 := by
        exact_mod_cast (Nat.div_mul_cancel (Nat.dvd_of_mod_eq_zero hzero.2)).symm
      rw [hsplit, zpow_add₀ (by norm_num), zpow_one]
      ring
  | case2 d hnonzero =>
      rw [trim, if_neg hnonzero]
      exact ⟨hd, le_rfl, rfl⟩

/-! ## Single precision -/

namespace Single

open Volley.Nearest (Canonical)

/-- A quarter of the last digit under the power `k`, in units of `10 ^ shift k`. -/
def scale (k : Nat) : Nat :=
  if 0 ≤ (k : ℤ) - 151 then 2 ^ ((k : ℤ) - 151).toNat else 5 ^ (-((k : ℤ) - 151)).toNat

def shift (k : Nat) : ℤ :=
  min ((k : ℤ) - 151) 0

/-- The numbers that round to the significand `m` under the power `k`. -/
def interval (m k : Nat) : Interval :=
  { low := lower m k * scale k, value := 4 * m * scale k, high := upper m * scale k,
    closed := m % 2 = 0 }

variable {m k n j : Nat} {r : ℝ}

theorem scale_pos (k : Nat) : 0 < scale k := by
  rw [scale]
  split <;> positivity

theorem scale_mul (k : Nat) : (scale k : ℝ) * 10 ^ shift k = 2 ^ ((k : ℤ) - 151) := by
  rw [scale, shift]
  split
  · rename_i hwhole
    rw [min_eq_right hwhole, zpow_zero, mul_one]
    push_cast
    rw [← zpow_natCast, Int.toNat_of_nonneg hwhole]
  · rename_i hpart
    rw [min_eq_left (by omega)]
    obtain ⟨n, hn⟩ := Int.eq_ofNat_of_zero_le (show 0 ≤ -((k : ℤ) - 151) by omega)
    rw [hn, show (k : ℤ) - 151 = -n by omega, Int.toNat_natCast, zpow_neg, zpow_neg,
      zpow_natCast, zpow_natCast,
      show (10 : ℝ) = 5 * 2 by norm_num, mul_pow]
    push_cast
    field_simp

theorem shortest_eq (tie : Tie) (m k : Nat) :
    shortest .binary32 tie m (k - 149) =
      Decimal.trim
        { (interval m k).coarsest tie (digits (interval m k).value).length with
          exponent := ((interval m k).coarsest tie (digits (interval m k).value).length).exponent +
            shift k } := by
  have hleast : m = 1 <<< Format.binary32.mantissaBitsWithoutImplicit ∧
      Format.binary32.minExponent < (k : ℤ) - 149 ↔
      m = 2 ^ 23 ∧ 0 < k := by
    refine and_congr Iff.rfl ?_
    change (-149 : ℤ) < k - 149 ↔ _
    omega
  have hreach : (if m = 1 <<< Format.binary32.mantissaBitsWithoutImplicit ∧
      Format.binary32.minExponent < (k : ℤ) - 149
      then 1 else 2) = reach m k := if_congr hleast rfl rfl
  rw [shortest]
  dsimp only
  rw [hreach, show (k : ℤ) - 149 - 2 = k - 151 by ring, Nat.one_shiftLeft]
  rfl

theorem lower_le (m k : Nat) : 4 * m ≤ lower m k + 2 := by
  rw [lower, reach]
  split <;> omega

theorem lower_lt (hm : 0 < m) : lower m k < 4 * m := by
  rw [lower, reach]
  split <;> omega

theorem low_lt (hm : 0 < m) : (interval m k).low < (interval m k).value :=
  Nat.mul_lt_mul_of_pos_right (lower_lt hm) (scale_pos k)

theorem lt_high : (interval m k).value < (interval m k).high :=
  Nat.mul_lt_mul_of_pos_right (by rw [upper]; omega) (scale_pos k)

/-- The interval holds what rounds to the significand. -/
theorem contains_iff : (interval m k).contains n = true ↔ Hits m k (n * 10 ^ shift k) := by
  have hunit : (0 : ℝ) < 10 ^ shift k := by positivity
  have hscale (a : Nat) : (a : ℝ) * 2 ^ ((k : ℤ) - 151) = (a * scale k : ℕ) * 10 ^ shift k := by
    rw [← scale_mul]
    push_cast
    ring
  have hlow : lower m k * 2 ^ ((k : ℤ) - 151) ≤ n * (10 : ℝ) ^ shift k ↔
      (interval m k).low ≤ n := by
    rw [hscale, mul_le_mul_iff_left₀ hunit, Nat.cast_le]
    rfl
  have hhigh : n * (10 : ℝ) ^ shift k ≤ upper m * 2 ^ ((k : ℤ) - 151) ↔
      n ≤ (interval m k).high := by
    rw [hscale, mul_le_mul_iff_left₀ hunit, Nat.cast_le]
    rfl
  have hlow' : lower m k * 2 ^ ((k : ℤ) - 151) < n * (10 : ℝ) ^ shift k ↔
      (interval m k).low < n := by
    rw [hscale, mul_lt_mul_iff_left₀ hunit, Nat.cast_lt]
    rfl
  have hhigh' : n * (10 : ℝ) ^ shift k < upper m * 2 ^ ((k : ℤ) - 151) ↔
      n < (interval m k).high := by
    rw [hscale, mul_lt_mul_iff_left₀ hunit, Nat.cast_lt]
    rfl
  have hhits : Hits m k (n * 10 ^ shift k) ↔ ((interval m k).low ≤ n ∧ n ≤ (interval m k).high) ∧
      (m % 2 = 1 → (interval m k).low < n ∧ n < (interval m k).high) := by
    rw [← hlow, ← hhigh, ← hlow', ← hhigh']
    exact ⟨fun h => ⟨⟨h.low, h.high⟩, h.odd⟩, fun h => ⟨h.1.1, h.1.2, h.2⟩⟩
  rw [hhits, Interval.contains]
  have hclosed : (interval m k).closed = decide (m % 2 = 0) := rfl
  by_cases heven : m % 2 = 0
  · rw [hclosed, decide_eq_true heven, if_pos rfl, decide_eq_true_iff]
    exact ⟨fun h => ⟨h, fun hodd => by omega⟩, And.left⟩
  · rw [hclosed, decide_eq_false heven, if_neg Bool.false_ne_true, decide_eq_true_iff]
    exact ⟨fun h => ⟨⟨h.1.le, h.2.le⟩, fun _ => h⟩, fun h => h.2 (by omega)⟩

/-! ## Digits and margins -/

/-- A decimal on a grid where the next coarser one is too wide has few digits. -/
theorem coefficient_lt (hm : 0 < m) (hdigits : m < 2 ^ 24) {tie : Tie}
    (hmul : n * 10 ^ j ≤ (interval m k).value + 10 ^ j)
    (hcoarser : (interval m k).onGrid? tie (j + 1) = none) : n < 2 ^ 28 := by
  have hwide : upper m * scale k ≤ lower m k * scale k + 10 ^ (j + 1) :=
    Interval.high_le_of_onGrid? (low_lt hm) lt_high hcoarser
  have hgap : (lower m k + 3) * scale k ≤ upper m * scale k :=
    Nat.mul_le_mul_right _ (by have := lower_lt (k := k) hm; rw [upper]; omega)
  have hvalue : 4 * m * scale k ≤ 2 ^ 26 * scale k := Nat.mul_le_mul_right _ (by omega)
  change n * 10 ^ j ≤ 4 * m * scale k + 10 ^ j at hmul
  rw [Nat.add_mul] at hgap
  rw [Nat.pow_succ] at hwide
  by_contra hmany
  have hcount := Nat.mul_le_mul_right (10 ^ j) (not_lt.mp hmany)
  have hgrid : 0 < 10 ^ j := Nat.pow_pos (by decide)
  omega

/-- The number is farther from both bounds than a thirty-second part of a quarter. -/
structure Inner (m k : Nat) (r : ℝ) : Prop where
  low : (lower m k + 1 / 32) * 2 ^ ((k : ℤ) - 151) ≤ r
  high : r ≤ (upper m - 1 / 32) * 2 ^ ((k : ℤ) - 151)

theorem inner_mul_shift (hlow : (32 * lower m k + 1) * scale k ≤ 32 * n)
    (hhigh : 32 * n + scale k ≤ 32 * upper m * scale k) :
    Inner m k (n * 10 ^ shift k) := by
  have hunit : (0 : ℝ) < 10 ^ shift k := by positivity
  have hlow' : ((32 * lower m k + 1) * scale k : ℝ) ≤ 32 * n := by exact_mod_cast hlow
  have hhigh' : (32 * n + scale k : ℝ) ≤ 32 * upper m * scale k := by exact_mod_cast hhigh
  constructor
  · rw [← scale_mul, ← mul_assoc]
    exact mul_le_mul_of_nonneg_right (by linarith) hunit.le
  · rw [← scale_mul, ← mul_assoc]
    exact mul_le_mul_of_nonneg_right (by linarith) hunit.le

theorem inner_value (hm : 0 < m) : Inner m k ((interval m k).value * 10 ^ shift k) := by
  refine inner_mul_shift ?_ ?_
  · change _ ≤ 32 * (4 * m * scale k)
    rw [← Nat.mul_assoc]
    exact Nat.mul_le_mul_right _ (by have := lower_lt (k := k) hm; omega)
  · change 32 * (4 * m * scale k) + scale k ≤ _
    rw [← Nat.mul_assoc, ← Nat.succ_mul]
    exact Nat.mul_le_mul_right _ (by rw [upper]; omega)

theorem Inner.hits (h : Inner m k r) (hdigits : m < 2 ^ 24) {v : ℝ}
    (hv : |v - r| ≤ r / 2 ^ 50) : Hits m k v := by
  have hquarter : (0 : ℝ) < 2 ^ ((k : ℤ) - 151) := by positivity
  have hupper : (upper m : ℝ) ≤ 2 ^ 26 := by
    exact_mod_cast (show upper m ≤ 2 ^ 26 by rw [upper]; omega)
  have hmost := mul_le_mul_of_nonneg_right hupper hquarter.le
  obtain ⟨hbelow, habove⟩ := abs_le.mp hv
  obtain ⟨hlow, hhigh⟩ := h
  have hlow' : lower m k * 2 ^ ((k : ℤ) - 151) < v := by linarith
  have hhigh' : v < upper m * 2 ^ ((k : ℤ) - 151) := by linarith
  exact ⟨hlow'.le, hhigh'.le, fun _ => ⟨hlow', hhigh'⟩⟩

theorem reach_cases (hdigits : m < 2 ^ 24) :
    reach m k = 1 ∧ m * scale k = 2 ^ 23 * scale k ∨ reach m k = 2 ∧
      m * scale k ≤ 2 ^ 24 * scale k := by
  rw [reach]
  split
  · rename_i hleast
    exact .inl ⟨rfl, by rw [hleast.1]⟩
  · exact .inr ⟨rfl, Nat.mul_le_mul_right _ hdigits.le⟩

/-- A decimal of more than seven digits is nearer to the value than to either bound. -/
theorem inner_of_chosen (hm : 0 < m) (hdigits : m < 2 ^ 24) (hmany : 17 * 2 ^ 20 ≤ n)
    (h : (interval m k).Chosen j n) :
    Inner m k ((n * 10 ^ j : ℕ) * 10 ^ shift k) := by
  have hvalue : (interval m k).value = 4 * (m * scale k) := Nat.mul_assoc _ _ _
  have hlow : (interval m k).low + reach m k * scale k = 4 * (m * scale k) := by
    change lower m k * scale k + reach m k * scale k = _
    have : lower m k + reach m k = 4 * m := by
      rw [lower, Nat.sub_add_cancel]
      rw [reach]
      split <;> omega
    rw [← Nat.add_mul, this, Nat.mul_assoc]
  have hhigh : (interval m k).high = 4 * (m * scale k) + 2 * scale k := by
    change upper m * scale k = _
    rw [upper, Nat.add_mul, Nat.mul_assoc]
  have hcount := Nat.mul_le_mul_right (10 ^ j) hmany
  have hmul := h.mul_le
  have hlow' := low_lt (k := k) hm
  have hhigh' := lt_high (m := m) (k := k)
  have hreach := reach_cases (k := k) hdigits
  have hgoal : 32 * (interval m k).low + scale k ≤ 32 * (n * 10 ^ j) ∧
      32 * (n * 10 ^ j) + scale k ≤ 32 * (interval m k).high := by
    rcases h.side with ⟨hbelow, habove, hnear⟩ | ⟨d, rfl, hbelow, habove, hnear⟩
    · have hnear' := hnear.imp_right (Interval.high_le_of_not_contains (hlow'.trans habove))
      simp only [Nat.add_mul, Nat.mul_assoc, Nat.one_mul] at *
      generalize n * 10 ^ j = decimal at *
      generalize 10 ^ j = grid at *
      rcases hreach with ⟨hreach, hm⟩ | ⟨hreach, hm⟩ <;> rw [hreach] at hlow <;> rcases hnear'
        with hnear | hnear <;> omega
    · have hnear' := hnear.imp_right (Interval.le_low_of_not_contains (hbelow.trans_lt hhigh'))
      simp only [Nat.add_mul, Nat.mul_assoc, Nat.one_mul] at *
      generalize d * 10 ^ j = decimal at *
      generalize 10 ^ j = grid at *
      rcases hreach with ⟨hreach, hm⟩ | ⟨hreach, hm⟩ <;> rw [hreach] at hlow <;> rcases hnear'
        with hnear | hnear <;> omega
  refine inner_mul_shift ?_ ?_
  · rw [Nat.add_mul, Nat.mul_assoc, Nat.one_mul]
    exact hgoal.1
  · rw [Nat.mul_assoc]
    exact hgoal.2

/-- A decimal that rounds to a number, with at most nine digits, and with at most
seven if it is near to a bound. -/
structure Short (m k : Nat) (d : Decimal) : Prop where
  pos : 0 < d.coefficient
  digits : d.coefficient < 2 ^ 28
  hits : Hits m k (d.coefficient * 10 ^ d.exponent)
  few : d.coefficient < 17 * 2 ^ 20 ∨ Inner m k (d.coefficient * 10 ^ d.exponent)

theorem Short.trim {d : Decimal} (h : Short m k d) : Short m k d.trim := by
  obtain ⟨hpos, hle, hvalue⟩ := d.trim_spec h.pos
  exact ⟨hpos, hle.trans_lt h.digits, by rw [hvalue]; exact h.hits,
    h.few.imp hle.trans_lt fun hinner => by rw [hvalue]; exact hinner⟩

/-- The coarsest grid that meets the interval has a short decimal there. -/
theorem short_coarsest (hm : 0 < m) (hdigits : m < 2 ^ 24) (tie : Tie) {d : Decimal}
    (hd : d = (interval m k).coarsest tie (digits (interval m k).value).length) :
    Short m k { d with exponent := d.exponent + shift k } := by
  obtain ⟨j, hexponent, hfound, hlast⟩ :=
    (interval m k).coarsest_spec tie (digits (interval m k).value).length
  rw [← hd] at hexponent hfound
  have hdecimal : (d.coefficient * 10 ^ (d.exponent + shift k) : ℝ) =
      (d.coefficient * 10 ^ j : ℕ) * 10 ^ shift k := by
    rw [hexponent, zpow_add₀ (by norm_num), zpow_natCast]
    push_cast
    ring
  have hmul : d.coefficient * 10 ^ j ≤ (interval m k).value + 10 ^ j := by
    rcases hfound with ⟨rfl, hvalue⟩ | hchosen
    · rw [hvalue, pow_zero, mul_one]
      exact Nat.le_succ _
    · exact hchosen.mul_le
  have hhits : Hits m k (d.coefficient * 10 ^ (d.exponent + shift k)) := by
    rw [hdecimal]
    rcases hfound with ⟨rfl, hvalue⟩ | hchosen
    · rw [hvalue, pow_zero, mul_one]
      exact (inner_value hm).hits hdigits (by rw [sub_self, abs_zero]; positivity)
    · exact contains_iff.mp hchosen.contained
  refine ⟨?_, ?_, hhits, ?_⟩
  · by_contra hzero
    have hpos := hhits.pos hm
    rw [Nat.eq_zero_of_not_pos hzero, Nat.cast_zero, zero_mul] at hpos
    exact hpos.false
  · rcases hlast with hlast | hcoarser
    · -- All digits were dropped.
      have hbelow := lt_pow_length_digits (interval m k).value
      rw [← hlast] at hbelow
      have hone : d.coefficient < 2 := by
        by_contra hmany
        have := Nat.mul_le_mul_right (10 ^ j) (not_lt.mp hmany)
        omega
      exact hone.trans (by decide)
    · exact coefficient_lt hm hdigits hmul hcoarser
  · rw [hdecimal]
    rcases hfound with ⟨rfl, hvalue⟩ | hchosen
    · rw [hvalue, pow_zero, mul_one]
      exact .inr (inner_value hm)
    · exact (lt_or_ge d.coefficient (17 * 2 ^ 20)).imp_right
        fun hmany => inner_of_chosen hm hdigits hmany hchosen

theorem short_shortest (hm : 0 < m) (hdigits : m < 2 ^ 24) (tie : Tie) :
    Short m k (shortest .binary32 tie m (k - 149)) := by
  rw [shortest_eq]
  exact (short_coarsest hm hdigits tie rfl).trim

theorem Short.natAbs_exponent_lt {d : Decimal} (h : Short m k d) (hm : 0 < m) (hdigits : m < 2 ^ 24)
    (hk : k < 254) :
    d.exponent.natAbs < 54 := by
  have hpower : (0 : ℝ) < 10 ^ d.exponent := by positivity
  have hcoefficient : (d.coefficient : ℝ) < 2 ^ 28 := by exact_mod_cast h.digits
  have hcoefficient' : (1 : ℝ) ≤ d.coefficient := by exact_mod_cast h.pos
  have hlow : (2 : ℝ) ^ (-178 : ℤ) ≤ 10 ^ d.exponent := by
    have hlower : (2 : ℝ) ≤ lower m k := by
      exact_mod_cast (show 2 ≤ lower m k by have := lower_le m k; omega)
    have hleast : (2 : ℝ) ^ (-151 : ℤ) ≤ 2 ^ ((k : ℤ) - 151) :=
      zpow_le_zpow_right₀ one_le_two (by omega)
    have hproduct := mul_le_mul hlower hleast (by positivity) (by positivity)
    have hhits := h.hits.low
    have hfew := mul_le_mul_of_nonneg_right hcoefficient.le hpower.le
    norm_num at *
    linarith
  have hhigh : (10 : ℝ) ^ d.exponent ≤ 2 ^ (128 : ℤ) := by
    have hupper : (upper m : ℝ) ≤ 2 ^ 26 := by
      exact_mod_cast (show upper m ≤ 2 ^ 26 by rw [upper]; omega)
    have hmost : (2 : ℝ) ^ ((k : ℤ) - 151) ≤ 2 ^ (102 : ℤ) :=
      zpow_le_zpow_right₀ one_le_two (by omega)
    have hproduct := mul_le_mul hupper hmost (by positivity) (by positivity)
    have hhits := h.hits.high
    have hone := mul_le_mul_of_nonneg_right hcoefficient' hpower.le
    norm_num at *
    linarith
  have hleast : -54 < d.exponent := by
    refine (zpow_lt_zpow_iff_right₀ (show (1 : ℝ) < 10 by norm_num)).mp (lt_of_lt_of_le ?_ hlow)
    norm_num
  have hmost : d.exponent < 39 := by
    refine (zpow_lt_zpow_iff_right₀ (show (1 : ℝ) < 10 by norm_num)).mp (hhigh.trans_lt ?_)
    norm_num
  omega

/-- A short decimal of a number, rounded twice to a double, still rounds to the number. -/
theorem Short.hits_near {d : Decimal} (h : Short m k d) (hm : 0 < m) (hcanonical : Canonical m k)
    (hk : k < 254) {v : ℝ}
    (hv : Double.Near v (d.coefficient * heldScale d.exponent)) : Hits m k v := by
  have hguarded := guarded_scale (h.natAbs_exponent_lt hm hcanonical.1 hk)
  rcases h.few with hfew | hinner
  · exact hguarded.hits_near h.pos hfew hv hm hcanonical h.hits
  · exact hinner.hits hcanonical.1 (hguarded.abs_near_sub_le hv)

end Single

end Volley
