import Mathlib
import Volley.Proofs.Number.Double

/-!
# The numbers that round to a number

They reach half way to the numbers next to it, and as far as there if its significand is even. Below
a power of two the numbers are twice as dense.
-/

namespace Volley.Single

open Float.Model Float.Model.UnpackedFloat
open Volley.Nearest

/-- How many quarters of the last digit lie between a number and the half way
to the one below it. -/
def reach (m k : Nat) : Nat :=
  if m = 2 ^ 23 ∧ 0 < k then 1 else 2

/-- Half way to the number above, in quarters of the last digit. -/
def upper (m : Nat) : Nat :=
  4 * m + 2

/-- Half way to the number below, in quarters of the last digit. -/
def lower (m k : Nat) : Nat :=
  4 * m - reach m k

/-- A positive number that rounds to the significand `m` under the power `k`. -/
structure Hits (m k : Nat) (r : ℝ) : Prop where
  low : lower m k * 2 ^ ((k : ℤ) - 151) ≤ r
  high : r ≤ upper m * 2 ^ ((k : ℤ) - 151)
  odd : m % 2 = 1 → lower m k * 2 ^ ((k : ℤ) - 151) < r ∧ r < upper m * 2 ^ ((k : ℤ) - 151)

variable {m k : Nat} {r : ℝ}

theorem quarter_eq (k : Nat) : (2 : ℝ) ^ ((k : ℤ) - 149) = 4 * 2 ^ ((k : ℤ) - 151) := by
  rw [show (k : ℤ) - 149 = 2 + (k - 151) by ring, zpow_add₀ two_ne_zero]
  norm_num

/-- What an extended mantissa stands for is rounded to the whole number that it is within a half of,
and from a half to the even one. -/
theorem Stands.roundedMantissa_eq {em : ExtendedMantissa} (h : Stands em r)
    (hnear : |r - m| ≤ 1 / 2) (hodd : m % 2 = 1 → |r - m| < 1 / 2) : em.roundedMantissa = m := by
  have hrounded := h.abs_roundedMantissa_sub_le
  by_cases hstrict : |r - m| < 1 / 2
  · refine Double.eq_of_abs_sub_lt_one ?_
    calc |(em.roundedMantissa : ℝ) - m| ≤ |(em.roundedMantissa : ℝ) - r| + |r - m| :=
      abs_sub_le _ _ _
      _ < 1 := by linarith
  · have heven : m % 2 = 0 := by
      have := mt hodd hstrict
      omega
    have htie : |r - m| = 1 / 2 := le_antisymm hnear (not_lt.mp hstrict)
    obtain ⟨double, hdouble, hsides⟩ : ∃ double : ℤ, r + r = double ∧
        (double = 2 * m + 1 ∨ double = 2 * m - 1) := by
      rcases (abs_eq (by norm_num)).mp htie with hr | hr
      · exact ⟨2 * m + 1, by push_cast; linarith, .inl rfl⟩
      · exact ⟨2 * m - 1, by push_cast; linarith, .inr rfl⟩
    obtain ⟨q, roundBit, stickyBit⟩ := em
    cases roundBit <;> cases stickyBit <;> simp only [Stands] at h
    · have hexact : double = q + q := by
        exact_mod_cast (show (double : ℝ) = q + q by rw [← hdouble, h])
      omega
    · have hlow : (q + q : ℤ) < double := by exact_mod_cast (show (q + q : ℝ) < double by linarith)
      have hhigh : double < q + q + 1 := by
        exact_mod_cast (show (double : ℝ) < q + q + 1 by linarith)
      omega
    · have hexact : double = q + q + 1 := by exact_mod_cast hdouble.symm.trans h
      change q + q % 2 = m
      omega
    · have hlow : (q + q + 1 : ℤ) < double := by
        exact_mod_cast (show (q + q + 1 : ℝ) < double by linarith)
      have hhigh : double < q + q + 2 := by
        exact_mod_cast (show (double : ℝ) < q + q + 2 by linarith)
      omega

/-! ## Rounding -/

theorem totalExponent_le {q : Nat} {e t : ℤ} (hq : 0 < q)
    (hhigh : q * 2 ^ e < (2 : ℝ) ^ t) : totalExponent q e ≤ t := by
  have hlog : (2 : ℝ) ^ ((q.log2 : ℤ) + e) ≤ q * 2 ^ e := by
    rw [zpow_add₀ two_ne_zero, zpow_natCast]
    exact mul_le_mul_of_nonneg_right (by exact_mod_cast Nat.log2_self_le hq.ne') (by positivity)
  have := (zpow_lt_zpow_iff_right₀ one_lt_two).mp (hlog.trans_lt hhigh)
  rw [totalExponent]
  omega

theorem lt_totalExponent {q : Nat} {e t : ℤ}
    (hlow : (2 : ℝ) ^ t ≤ q * 2 ^ e) : t < totalExponent q e := by
  have hlog : q * 2 ^ e < (2 : ℝ) ^ (totalExponent q e) := by
    rw [totalExponent, zpow_add₀ two_ne_zero, ← Nat.cast_add_one, zpow_natCast]
    exact mul_lt_mul_of_pos_right (by exact_mod_cast Nat.lt_log2_self) (by positivity)
  exact (zpow_lt_zpow_iff_right₀ one_lt_two).mp (hlow.trans_lt hlog)

/-- A number whose digits end at some power of two is rounded to a whole count of that power. -/
theorem round_eq_of_target {q w : Nat} {e t : ℤ} (hq : 0 < q)
    (htarget : Format.binary32.targetExponent (totalExponent q e) = t)
    (hnear : |(q * 2 ^ e / 2 ^ t : ℝ) - w| ≤ 1 / 2)
    (hodd : w % 2 = 1 → |(q * 2 ^ e / 2 ^ t : ℝ) - w| < 1 / 2) (sign : Sign) :
    UnpackedFloat.round Format.binary32 sign q e =
      (let final := (shiftToTargetExponent Format.binary32 w t .exact)
      if h : final.1.mantissa = 0 then .zero sign
        else .finite sign final.1.mantissa final.2 (Nat.pos_of_ne_zero h)) := by
  rw [UnpackedFloat.round, htarget, decreaseExponent]
  dsimp only
  obtain ⟨gap, hgap⟩ : ∃ gap : Nat, e - (e - t).toNat + gap = t := ⟨(t - e).toNat, by omega⟩
  have htotal := totalExponent_shiftLeft hq (e - t).toNat e
  generalize (e - t).toNat = s at hgap htotal
  have hshift : shiftToTargetExponent Format.binary32 (q <<< s) (e - s) .exact =
      (ExtendedMantissa.ofMantissaAndAccuracy (q <<< s) .exact >>> gap, e - s + gap) :=
    Double.shiftToTargetExponent_of_target (by rw [htotal, htarget, hgap])
  have hcount : ((q <<< s : Nat) : ℝ) / 2 ^ gap = q * 2 ^ e / 2 ^ t := by
    rw [← hgap, Nat.shiftLeft_eq, zpow_add₀ two_ne_zero, zpow_sub₀ two_ne_zero,
      zpow_natCast, zpow_natCast]
    push_cast
    field_simp
  have hstands := (stands_exact (q <<< s)).shiftRight gap
  rw [hcount] at hstands
  rw [roundWithAccuracy, hshift, hgap]
  dsimp only
  rw [hstands.roundedMantissa_eq hnear hodd]

theorem Hits.pos (hm : 0 < m) (h : Hits m k r) : 0 < r := by
  have hcount : 0 < lower m k := by
    rw [lower, reach]
    split <;> omega
  exact (by positivity : (0 : ℝ) < lower m k * 2 ^ ((k : ℤ) - 151)).trans_le h.low

/-- What lies within a half of a significand in its own power of two. -/
theorem Hits.abs_sub_le (h : Hits m k r) (hm : 0 < m) : |r / 2 ^ ((k : ℤ) - 149) - m| ≤ 1 / 2 ∧
    (m % 2 = 1 → |r / 2 ^ ((k : ℤ) - 149) - m| < 1 / 2) := by
  have hquarter : (0 : ℝ) < 2 ^ ((k : ℤ) - 151) := by positivity
  obtain ⟨count, rfl⟩ : ∃ count, r = count * 2 ^ ((k : ℤ) - 151) :=
    ⟨r / 2 ^ ((k : ℤ) - 151), by field_simp⟩
  have hlower : (4 * m - 2 : ℝ) ≤ lower m k := by
    have : 4 * m ≤ lower m k + 2 := by
      rw [lower, reach]
      split <;> omega
    have : (4 * m : ℝ) ≤ lower m k + 2 := by exact_mod_cast this
    linarith
  have hupper : (upper m : ℝ) = 4 * m + 2 := by
    rw [upper]
    push_cast
    rfl
  have hscale : count * 2 ^ ((k : ℤ) - 151) / 2 ^ ((k : ℤ) - 149) = count / 4 := by
    rw [quarter_eq]
    field_simp
  have hlow := le_of_mul_le_mul_right h.low hquarter
  have hhigh := le_of_mul_le_mul_right h.high hquarter
  rw [hscale]
  refine ⟨abs_le.mpr ⟨by linarith, by linarith⟩, fun hodd => ?_⟩
  have hlow' := lt_of_mul_lt_mul_right (h.odd hodd).1 hquarter.le
  have hhigh' := lt_of_mul_lt_mul_right (h.odd hodd).2 hquarter.le
  exact abs_lt.mpr ⟨by linarith, by linarith⟩

/-- Only the least significand of its power is hit from below that power. -/
theorem Hits.eq_least (h : Hits m k r) (hcanonical : Canonical m k) (hk : 0 < k)
    (hbelow : r < 2 ^ ((k : ℤ) - 126)) :
    m = 2 ^ 23 ∧ (2 ^ 24 - 1 / 2) * 2 ^ (((k - 1 : ℕ) : ℤ) - 149) ≤ r := by
  have hquarter : (0 : ℝ) < 2 ^ ((k : ℤ) - 151) := by positivity
  have hlow := h.low
  have hcount : lower m k < 2 ^ 25 := by
    have : (lower m k : ℝ) * 2 ^ ((k : ℤ) - 151) < 2 ^ 25 * 2 ^ ((k : ℤ) - 151) := by
      refine hlow.trans_lt (hbelow.trans_le (le_of_eq ?_))
      rw [show (k : ℤ) - 126 = 25 + (k - 151) by ring, zpow_add₀ two_ne_zero]
      norm_num
    exact_mod_cast lt_of_mul_lt_mul_right this hquarter.le
  have hleast := hcanonical.2
  obtain rfl : m = 2 ^ 23 := by
    rw [lower, reach] at hcount
    split at hcount <;> omega
  rw [lower, reach, if_pos ⟨rfl, hk⟩] at hlow
  refine ⟨rfl, le_trans (le_of_eq ?_) hlow⟩
  rw [show ((k - 1 : ℕ) : ℤ) - 149 = 1 + (k - 151) by omega, zpow_add₀ two_ne_zero]
  push_cast
  ring

theorem round_of_hits {q : Nat} {e : ℤ} (hm : 0 < m) (hcanonical : Canonical m k) (hq : 0 < q)
    (h : Hits m k (q * 2 ^ e)) (sign : Sign) :
    UnpackedFloat.round Format.binary32 sign q e = .finite sign m (k - 149) hm := by
  have hpower := power_pos k
  obtain ⟨hnear, hodd⟩ := h.abs_sub_le hm
  have hdigits : (m : ℝ) + 1 ≤ 2 ^ 24 := by exact_mod_cast hcanonical.1
  have habove : (q * 2 ^ e : ℝ) < 2 ^ ((k : ℤ) - 125) := by
    have := (abs_le.mp hnear).2
    rw [show (k : ℤ) - 125 = 24 + (k - 149) by ring, zpow_add₀ two_ne_zero, ← div_lt_iff₀ hpower]
    norm_num at hdigits ⊢
    linarith
  have htotal := totalExponent_le hq habove
  by_cases hbelow : k = 0 ∨ (2 : ℝ) ^ ((k : ℤ) - 126) ≤ q * 2 ^ e
  · have htarget : Format.binary32.targetExponent (totalExponent q e) = (k : ℤ) - 149 := by
      change max (totalExponent q e - 24) (-149) = _
      rcases hbelow with rfl | hbelow
      · omega
      · have := lt_totalExponent hbelow
        omega
    rw [round_eq_of_target hq htarget hnear hodd, shiftToTargetExponent_canonical hm hcanonical]
    exact dif_neg hm.ne'
  · -- The number lies below a power of two, where it has one digit more than its significand.
    obtain ⟨hk, hbelow⟩ := not_or.mp hbelow
    obtain ⟨j, rfl⟩ := Nat.exists_eq_succ_of_ne_zero hk
    obtain ⟨rfl, hlow⟩ := h.eq_least hcanonical (Nat.succ_pos j) (not_le.mp hbelow)
    have hhigh : (q * 2 ^ e : ℝ) < 2 ^ 24 * 2 ^ ((j : ℤ) - 149) := by
      refine (not_le.mp hbelow).trans_le (le_of_eq ?_)
      rw [show ((j.succ : ℕ) : ℤ) - 126 = 24 + (j - 149) by push_cast; ring, zpow_add₀ two_ne_zero]
      norm_num
    have hunit := power_pos j
    have hcount : (2 ^ 24 - 1 / 2 : ℝ) ≤ q * 2 ^ e / 2 ^ ((j : ℤ) - 149) :=
      (le_div_iff₀ hunit).mpr hlow
    have hcount' : (q * 2 ^ e / 2 ^ ((j : ℤ) - 149) : ℝ) < 2 ^ 24 := (div_lt_iff₀ hunit).mpr hhigh
    have htarget : Format.binary32.targetExponent (totalExponent q e) = (j : ℤ) - 149 := by
      have hleast : (2 : ℝ) ^ ((j : ℤ) - 126) ≤ q * 2 ^ e := by
        refine le_trans ?_ hlow
        rw [show (j : ℤ) - 126 = 23 + (j - 149) by ring, zpow_add₀ two_ne_zero]
        exact mul_le_mul_of_nonneg_right (by norm_num) hunit.le
      have hfirst := lt_totalExponent hleast
      have hsecond := totalExponent_le hq (e := e) (t := (j : ℤ) - 125) (by
        rwa [show (j : ℤ) - 125 = 24 + (j - 149) by ring, zpow_add₀ two_ne_zero])
      change max (totalExponent q e - 24) (-149) = _
      omega
    rw [round_eq_of_target (w := 2 ^ 24) hq htarget
      (by push_cast; exact abs_le.mpr ⟨by linarith, by linarith⟩)
        (fun hodd => absurd hodd (by decide)),
      shiftToTargetExponent_carry, shiftRight_exact]
    exact dif_neg (show ¬2 ^ 24 / 2 ^ 1 = 0 by decide)

end Volley.Single
