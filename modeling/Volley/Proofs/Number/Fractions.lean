import Mathlib

/-!
# Fractions of few digits

What lies between two neighbouring fractions has at least the numerators and the
denominators of both together. So neighbours around a real number keep the fractions of few
digits away from it, and tell how far.
-/

namespace Volley

/-- Two fractions, of which the greater one may be infinite. -/
structure Gap where
  lowNum : Nat
  lowDen : Nat
  highNum : Nat
  highDen : Nat

namespace Gap

/-- The two fractions are neighbours. -/
def Tight (gap : Gap) : Prop :=
  gap.highNum * gap.lowDen = gap.lowNum * gap.highDen + 1

instance (gap : Gap) : Decidable gap.Tight :=
  inferInstanceAs (Decidable (_ = _))

variable {gap : Gap} {n c : Nat} {x δ : ℝ}

/-! A numerator and a denominator are combined from those of the neighbours by
how far they are from either. -/

theorem Tight.num_eq (hgap : gap.Tight) (n c : Nat) :
    (n : ℤ) = gap.lowNum * (gap.highNum * c - n * gap.highDen) +
      gap.highNum * (n * gap.lowDen - gap.lowNum * c) := by
  have htight : (gap.highNum * gap.lowDen : ℤ) = gap.lowNum * gap.highDen + 1 := by
    exact_mod_cast hgap
  linear_combination (-n : ℤ) * htight

theorem Tight.den_eq (hgap : gap.Tight) (n c : Nat) :
    (c : ℤ) = gap.lowDen * (gap.highNum * c - n * gap.highDen) +
      gap.highDen * (n * gap.lowDen - gap.lowNum * c) := by
  have htight : (gap.highNum * gap.lowDen : ℤ) = gap.lowNum * gap.highDen + 1 := by
    exact_mod_cast hgap
  linear_combination (-c : ℤ) * htight

theorem Tight.sub_eq (hgap : gap.Tight) (n c : Nat) (x : ℝ) :
    c * x - n = (gap.highNum * c - n * gap.highDen) * (gap.lowDen * x - gap.lowNum) -
      (n * gap.lowDen - gap.lowNum * c) * (gap.highNum - gap.highDen * x) := by
  have htight : (gap.highNum * gap.lowDen : ℝ) = gap.lowNum * gap.highDen + 1 := by
    exact_mod_cast hgap
  linear_combination (n - c * x) * htight

theorem Tight.outside (hgap : gap.Tight)
    (hfew : n < gap.lowNum + gap.highNum ∨ c < gap.lowDen + gap.highDen) :
    n * gap.lowDen ≤ gap.lowNum * c ∨ gap.highNum * c ≤ n * gap.highDen := by
  by_contra hinside
  obtain ⟨hlow, hhigh⟩ := not_or.mp hinside
  have hlow' : (1 : ℤ) ≤ n * gap.lowDen - gap.lowNum * c := by
    have : (gap.lowNum * c : ℤ) < n * gap.lowDen := by exact_mod_cast not_le.mp hlow
    omega
  have hhigh' : (1 : ℤ) ≤ gap.highNum * c - n * gap.highDen := by
    have : (n * gap.highDen : ℤ) < gap.highNum * c := by exact_mod_cast not_le.mp hhigh
    omega
  have hsum : ∀ (a b : Nat) (v w : ℤ), 1 ≤ v → 1 ≤ w → (a + b : ℤ) ≤ a * v + b * w := by
    intro a b v w hv hw
    exact add_le_add (le_mul_of_one_le_right (Int.natCast_nonneg a) hv)
      (le_mul_of_one_le_right (Int.natCast_nonneg b) hw)
  have hnum := hsum gap.lowNum gap.highNum _ _ hhigh' hlow'
  have hden := hsum gap.lowDen gap.highDen _ _ hhigh' hlow'
  rw [← hgap.num_eq] at hnum
  rw [← hgap.den_eq] at hden
  omega

/-- A fraction up to the lower neighbour is at least as far from the number as that neighbour, each
counted in parts of its own denominator. -/
theorem Tight.below (hgap : gap.Tight) (hc : 0 < c) (hside : n * gap.lowDen ≤ gap.lowNum * c)
    (hlow : gap.lowNum ≤ gap.lowDen * x) (hhigh : gap.highDen * x ≤ gap.highNum) :
    n + (gap.lowDen * x - gap.lowNum) ≤ c * x := by
  have hother : (n * gap.lowDen - gap.lowNum * c : ℤ) ≤ 0 := by
    have : (n * gap.lowDen : ℤ) ≤ gap.lowNum * c := by exact_mod_cast hside
    omega
  have hcount : (1 : ℤ) ≤ gap.highNum * c - n * gap.highDen := by
    by_contra hnone
    have hnone' : (gap.highNum * c - n * gap.highDen : ℤ) ≤ 0 := by omega
    have hden := hgap.den_eq n c
    have hfirst := mul_nonpos_of_nonneg_of_nonpos (Int.natCast_nonneg gap.lowDen) hnone'
    have hsecond := mul_nonpos_of_nonneg_of_nonpos (Int.natCast_nonneg gap.highDen) hother
    omega
  have hcount' : (1 : ℝ) ≤ gap.highNum * c - n * gap.highDen := by exact_mod_cast hcount
  have hother' : (n * gap.lowDen - gap.lowNum * c : ℝ) ≤ 0 := by exact_mod_cast hother
  have hfirst := le_mul_of_one_le_left (sub_nonneg.mpr hlow) hcount'
  have hsecond := mul_nonpos_of_nonpos_of_nonneg hother' (sub_nonneg.mpr hhigh)
  have hdistance := hgap.sub_eq n c x
  linarith

theorem Tight.above (hgap : gap.Tight) (hn : 0 < n) (hside : gap.highNum * c ≤ n * gap.highDen)
    (hlow : gap.lowNum ≤ gap.lowDen * x) (hhigh : gap.highDen * x ≤ gap.highNum) :
    c * x + (gap.highNum - gap.highDen * x) ≤ n := by
  have hother : (gap.highNum * c - n * gap.highDen : ℤ) ≤ 0 := by
    have : (gap.highNum * c : ℤ) ≤ n * gap.highDen := by exact_mod_cast hside
    omega
  have hcount : (1 : ℤ) ≤ n * gap.lowDen - gap.lowNum * c := by
    by_contra hnone
    have hnone' : (n * gap.lowDen - gap.lowNum * c : ℤ) ≤ 0 := by omega
    have hnum := hgap.num_eq n c
    have hfirst := mul_nonpos_of_nonneg_of_nonpos (Int.natCast_nonneg gap.lowNum) hother
    have hsecond := mul_nonpos_of_nonneg_of_nonpos (Int.natCast_nonneg gap.highNum) hnone'
    omega
  have hcount' : (1 : ℝ) ≤ n * gap.lowDen - gap.lowNum * c := by exact_mod_cast hcount
  have hother' : (gap.highNum * c - n * gap.highDen : ℝ) ≤ 0 := by exact_mod_cast hother
  have hfirst := mul_nonpos_of_nonpos_of_nonneg hother' (sub_nonneg.mpr hlow)
  have hsecond := le_mul_of_one_le_left (sub_nonneg.mpr hhigh) hcount'
  have hdistance := hgap.sub_eq n c x
  linarith

/-- How often a number can be added to another one until their sum would be beyond a limit. -/
def strides (limit start step : Nat) : Nat :=
  (limit - 1 - start) / max 1 step

/-- Closes in on a number from either side in turn, until numerators or
denominators are no longer few. -/
def descend (num den : Nat) : (fuel : Nat) → Gap → Gap
  | 0, gap => gap
  | fuel + 1, gap =>
      let below := num * gap.lowDen - gap.lowNum * den
      let above := gap.highNum * den - num * gap.highDen
      let up := min ((below - 1) / above)
        (min (strides (2 ^ 25) gap.lowNum gap.highNum)
          (strides (17 * 2 ^ 20) gap.lowDen gap.highDen))
      let down := min ((above - 1) / below)
        (min (strides (2 ^ 25) gap.highNum gap.lowNum)
          (strides (17 * 2 ^ 20) gap.highDen gap.lowDen))
      if 2 ^ 25 ≤ gap.lowNum + gap.highNum ∨ 17 * 2 ^ 20 ≤ gap.lowDen + gap.highDen then gap
      else if 0 < up then
        descend num den fuel
          { gap with
            lowNum := gap.lowNum + up * gap.highNum
            lowDen := gap.lowDen + up * gap.highDen }
      else
        descend num den fuel
          { gap with
            highNum := gap.highNum + down * gap.lowNum
            highDen := gap.highDen + down * gap.lowDen }

end Gap

/-! ## Numbers apart from fractions -/

/-- Two numbers that lie on the same side of every fraction of few digits, the second one not too
near to it, unless both are equal to it. -/
structure Apart (x y : ℝ) : Prop where
  sides : ∀ n c : Nat, 0 < n → n < 2 ^ 25 → 0 < c → c < 17 * 2 ^ 20 →
    (c * x = n ∧ c * y = n) ∨ (n < c * x ∧ n + 1 / 2 ^ 29 < c * y) ∨
    (c * x < n ∧ c * y + 1 / 2 ^ 29 < n)

/-- Neighbours that tell that two fractions are apart from those of few digits. -/
structure Gap.Separates (gap : Gap) (num den num' den' : Nat) : Prop where
  tight : gap.Tight
  few : 2 ^ 25 ≤ gap.lowNum + gap.highNum ∨ 17 * 2 ^ 20 ≤ gap.lowDen + gap.highDen
  low : gap.lowNum * den < gap.lowDen * num
  high : gap.highDen * num < gap.highNum * den
  low' : 2 ^ 29 * (gap.lowNum * den') + den' < 2 ^ 29 * (gap.lowDen * num')
  high' : 2 ^ 29 * (gap.highDen * num') + den' < 2 ^ 29 * (gap.highNum * den')

variable {num den num' den' : Nat}

theorem Gap.Separates.apart {gap : Gap} (hgap : gap.Separates num den num' den') (hden : 0 < den)
    (hden' : 0 < den') :
    Apart (num / den) (num' / den') := by
  have hpos : (0 : ℝ) < den := by exact_mod_cast hden
  have hpos' : (0 : ℝ) < den' := by exact_mod_cast hden'
  have hlow : (gap.lowNum : ℝ) < gap.lowDen * (num / den) := by
    rw [← mul_div_assoc, lt_div_iff₀ hpos]
    exact_mod_cast hgap.low
  have hhigh : gap.highDen * (num / den) < (gap.highNum : ℝ) := by
    rw [← mul_div_assoc, div_lt_iff₀ hpos]
    exact_mod_cast hgap.high
  have hlow' : (gap.lowNum : ℝ) + 1 / 2 ^ 29 < gap.lowDen * (num' / den') := by
    have : (2 : ℝ) ^ 29 * (gap.lowNum * den') + den' < 2 ^ 29 * (gap.lowDen * num') := by
      exact_mod_cast hgap.low'
    rw [← mul_div_assoc, lt_div_iff₀ hpos']
    linarith
  have hhigh' : gap.highDen * (num' / den') + 1 / 2 ^ 29 < (gap.highNum : ℝ) := by
    have : (2 : ℝ) ^ 29 * (gap.highDen * num') + den' < 2 ^ 29 * (gap.highNum * den') := by
      exact_mod_cast hgap.high'
    rw [← mul_div_assoc, ← lt_sub_iff_add_lt, div_lt_iff₀ hpos']
    linarith
  have hunit : (0 : ℝ) < 1 / 2 ^ 29 := by positivity
  refine ⟨fun n c hn hfewNum hc hfewDen => ?_⟩
  have hfew : n < gap.lowNum + gap.highNum ∨ c < gap.lowDen + gap.highDen :=
    hgap.few.imp hfewNum.trans_le hfewDen.trans_le
  rcases hgap.tight.outside hfew with hside | hside
  · have hnear := hgap.tight.below hc hside hlow.le hhigh.le
    have hnear' := hgap.tight.below hc hside (x := num' / den') (by linarith) (by linarith)
    exact .inr (.inl ⟨by linarith, by linarith⟩)
  · have hnear := hgap.tight.above hn hside hlow.le hhigh.le
    have hnear' := hgap.tight.above hn hside (x := num' / den') (by linarith) (by linarith)
    exact .inr (.inr ⟨by linarith, by linarith⟩)

/-- A fraction with few digits in lowest terms is apart from all others. -/
theorem apart_self (hden : 0 < den)
    (hfew : den < 2 ^ 29 * num.gcd den) : Apart (num / den) (num / den) := by
  have hpos : (0 : ℝ) < den := by exact_mod_cast hden
  have hunit : (1 : ℝ) / 2 ^ 29 < num.gcd den / den := by
    rw [div_lt_div_iff₀ (by positivity) hpos, one_mul, mul_comm]
    exact_mod_cast hfew
  refine ⟨fun n c _ _ _ _ => ?_⟩
  have hnum : num.gcd den ∣ c * num := (Nat.gcd_dvd_left num den).mul_left c
  have hden' : num.gcd den ∣ n * den := (Nat.gcd_dvd_right num den).mul_left n
  have hstep : ∀ {v w : Nat}, num.gcd den ∣ v → num.gcd den ∣ w → v < w → v + num.gcd den ≤ w := by
    intro v w hv hw hlt
    have := Nat.le_of_dvd (Nat.sub_pos_of_lt hlt) (Nat.dvd_sub hw hv)
    omega
  rw [← mul_div_assoc]
  rcases lt_trichotomy (c * num) (n * den) with hlt | heq | hgt
  · have hfar : (c * num + num.gcd den : ℝ) ≤ n * den := by exact_mod_cast hstep hnum hden' hlt
    have hfar' : (c * num / den + num.gcd den / den : ℝ) ≤ n := by
      rwa [← add_div, div_le_iff₀ hpos]
    exact .inr (.inr ⟨by linarith [(show (0 : ℝ) < 1 / 2 ^ 29 by positivity)], by linarith⟩)
  · have hsame : (c * num / den : ℝ) = n := by
      rw [div_eq_iff hpos.ne']
      exact_mod_cast heq
    exact .inl ⟨hsame, hsame⟩
  · have hfar : (n * den + num.gcd den : ℝ) ≤ c * num := by exact_mod_cast hstep hden' hnum hgt
    have hfar' : (n + num.gcd den / den : ℝ) ≤ c * num / den := by
      rw [le_div_iff₀ hpos, add_mul, div_mul_cancel₀ _ hpos.ne']
      exact hfar
    exact .inr (.inl ⟨by linarith [(show (0 : ℝ) < 1 / 2 ^ 29 by positivity)], by linarith⟩)

/-! ## Certificates -/

instance (gap : Gap) (num den num' den' : Nat) : Decidable (gap.Separates num den num' den') :=
  decidable_of_iff (gap.Tight ∧
    (2 ^ 25 ≤ gap.lowNum + gap.highNum ∨ 17 * 2 ^ 20 ≤ gap.lowDen + gap.highDen) ∧
      gap.lowNum * den < gap.lowDen * num ∧ gap.highDen * num < gap.highNum * den ∧
      2 ^ 29 * (gap.lowNum * den') + den' < 2 ^ 29 * (gap.lowDen * num') ∧
      2 ^ 29 * (gap.highDen * num') + den' < 2 ^ 29 * (gap.highNum * den'))
    ⟨fun ⟨htight, hfew, hlow, hhigh, hlow', hhigh'⟩ => ⟨htight, hfew, hlow, hhigh, hlow', hhigh'⟩,
      fun h => ⟨h.tight, h.few, h.low, h.high, h.low', h.high'⟩⟩

/-- The fractions are the same one, of few digits itself, or neighbours are
found around them that tell. -/
def Certified (num den num' den' : Nat) : Prop :=
  (num = num' ∧ den = den' ∧ den < 2 ^ 29 * num.gcd den) ∨
    (Gap.descend num den 64 ⟨0, 1, 1, 0⟩).Separates num den num' den'

instance (num den num' den' : Nat) : Decidable (Certified num den num' den') :=
  inferInstanceAs (Decidable (_ ∨ _))

theorem Certified.apart (h : Certified num den num' den') (hden : 0 < den) (hden' : 0 < den') :
    Apart (num / den) (num' / den') := by
  rcases h with ⟨rfl, rfl, hfew⟩ | hgap
  · exact apart_self hden hfew
  · exact hgap.apart hden hden'

end Volley
