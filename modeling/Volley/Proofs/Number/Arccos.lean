import Mathlib
import Volley.Proofs.Number.Arctan
import Volley.Proofs.Number.Error

/-!
# The accuracy of the arc cosine

The arc cosine of a number between minus one and one is the real arc cosine to one part in `2 ^ 22`,
and grows as the number gets smaller.
-/

namespace Volley

open Float.Model Float.Model.UnpackedFloat Single

namespace Angle

/-! ## The angle of a point -/

theorem two_mul_arctan_point {x y h : ℝ} (hx : 0 ≤ x) (hy : 0 ≤ y) (hh : 0 < h)
    (hsq : h ^ 2 = x ^ 2 + y ^ 2) :
    2 * Real.arctan (y / (h + x)) = Real.arccos (x / h) := by
  refine two_mul_arctan_eq_arccos (by positivity) ?_
  have hsum : h + x ≠ 0 := by positivity
  field_simp
  nlinarith

theorem two_mul_arctan_point_left {x y h : ℝ} (hx : 0 ≤ x) (hy : 0 < y) (hh : 0 < h)
    (hsq : h ^ 2 = x ^ 2 + y ^ 2) :
    2 * Real.arctan ((h + x) / y) = Real.arccos (-(x / h)) := by
  have hpoint := two_mul_arctan_point hx hy.le hh hsq
  rw [← inv_div, Real.arctan_inv_of_pos (by positivity), Real.arccos_neg, ← hpoint]
  ring

/-- The tangent of half the angle, on either side. -/
noncomputable def tangentOf (left : Bool) (x y h : ℝ) : ℝ :=
  if left then (h + x) / y else y / (h + x)

theorem abs_tangentOf_sub_le (left : Bool) {x y h l d : ℝ} (hx : 1 ≤ x) (hy : 1 ≤ y) (hyh : y ≤ h)
    (hl : 0 ≤ l) (hlow : l ≤ h) (hhigh : h ≤ l + d) :
    |tangentOf left x y l - tangentOf left x y h| ≤ d := by
  have hd : 0 ≤ d := by linarith
  cases left with
  | true =>
      rw [tangentOf, tangentOf, if_pos rfl, if_pos rfl, ← sub_div, abs_div,
        abs_of_pos (show 0 < y by linarith),
        div_le_iff₀ (by linarith), abs_le]
      constructor <;> nlinarith
  | false =>
      have hhx : 0 < h + x := by linarith
      have hlx : 0 < l + x := by linarith
      rw [tangentOf, tangentOf, if_neg Bool.false_ne_true, if_neg Bool.false_ne_true,
        div_sub_div _ _ hlx.ne' hhx.ne', abs_div,
        abs_of_pos (show 0 < (l + x) * (h + x) by positivity),
        div_le_iff₀ (by positivity), show y * (h + x) - (l + x) * y = y * (h - l) by ring, abs_mul,
        abs_of_pos (show 0 < y by linarith), abs_of_nonneg (show 0 ≤ h - l by linarith), mul_comm y]
      calc (h - l) * y ≤ d * (h + x) := mul_le_mul (by linarith) (by linarith) (by linarith) hd
        _ ≤ d * ((l + x) * (h + x)) := by
            refine mul_le_mul_of_nonneg_left ?_ hd
            exact le_mul_of_one_le_left hhx.le (by linarith)

theorem two_mul_arctan_tangentOf (left : Bool) {x y h : ℝ} (hx : 0 ≤ x) (hy : 0 < y) (hh : 0 < h)
    (hsq : h ^ 2 = x ^ 2 + y ^ 2) :
    2 * Real.arctan (tangentOf left x y h) = Real.arccos (if left then -(x / h) else x / h) := by
  cases left with
  | true => exact two_mul_arctan_point_left hx hy hh hsq
  | false => exact two_mul_arctan_point hx hy.le hh hsq

theorem abs_fixedQuotient_sub_le (bits m : Nat) {n : Nat} (hn : 0 < n) :
    |((m * one bits / n : ℕ) : ℝ) / 2 ^ bits - m / n| ≤ 1 / 2 ^ bits := by
  obtain ⟨hfloor, hceil⟩ := natDiv_bounds (m * one bits) hn
  have hO : (0 : ℝ) < 2 ^ bits := by positivity
  rw [Nat.cast_mul, cast_one] at hfloor hceil
  have hexact : (m / n : ℝ) = m * 2 ^ bits / n / 2 ^ bits := by field_simp
  rw [hexact, ← sub_div, abs_div, abs_of_pos hO]
  refine div_le_div_of_nonneg_right (abs_le.mpr ⟨?_, ?_⟩) hO.le <;> linarith

/-- The tangent of half the angle of a whole point at `bits` binary places, from
a length to one part in `scale`. -/
def pointTangent (scale bits : Nat) (left : Bool) (x y : Nat) : Nat :=
  let length := natSqrt ((x * x + y * y) * scale * scale)
  if left then (length + x * scale) * one bits / (y * scale)
    else y * scale * one bits / (length + x * scale)

theorem ofPoint_eq (sign : Sign) (left : Bool) (x y : Nat) :
    ofPoint sign left x y = single sign
      (2 * arctan (128 + (x.log2 - y.log2))
        (pointTangent (1 <<< 128) (128 + (x.log2 - y.log2)) left x y))
      (-(128 + (x.log2 - y.log2) : Nat)) := rfl

theorem abs_pointTangent_sub_le {scale : Nat} (hscale : 0 < scale) (bits : Nat) (left : Bool)
    {x y : Nat} (hx : 0 < x) (hy : 0 < y) :
    |(pointTangent scale bits left x y : ℝ) / 2 ^ bits - tangentOf left x y √(x ^ 2 + y ^ 2)| ≤
      1 / scale + 1 / 2 ^ bits := by
  obtain ⟨hlow, hhigh⟩ := natSqrt_bounds ((x * x + y * y) * scale * scale)
  have hs : (0 : ℝ) < scale := by exact_mod_cast hscale
  have hx' : (1 : ℝ) ≤ x := by exact_mod_cast hx
  have hy' : (1 : ℝ) ≤ y := by exact_mod_cast hy
  have hroot : √(((x * x + y * y) * scale * scale : ℕ) : ℝ) = √((x : ℝ) ^ 2 + y ^ 2) * scale := by
    push_cast
    rw [show ((x : ℝ) * x + y * y) * scale * scale = (x ^ 2 + y ^ 2) * scale ^ 2 by ring,
      Real.sqrt_mul' _ (by positivity), Real.sqrt_sq hs.le]
  rw [hroot] at hlow hhigh
  have hyh : (y : ℝ) ≤ √(x ^ 2 + y ^ 2) := Real.le_sqrt_of_sq_le (by linarith [sq_nonneg (x : ℝ)])
  have hbelow : (natSqrt ((x * x + y * y) * scale * scale) : ℝ) / scale ≤ √(x ^ 2 + y ^ 2) :=
    (div_le_iff₀ hs).mpr hlow
  have habove : √((x : ℝ) ^ 2 + y ^ 2) ≤ natSqrt ((x * x + y * y) * scale * scale) / scale +
      1 / scale := by
    rw [← add_div, le_div_iff₀ hs]
    exact hhigh.le
  have hlength := abs_tangentOf_sub_le left hx' hy' hyh (by positivity) hbelow habove
  refine (abs_sub_le _ (tangentOf left x y (natSqrt ((x * x + y * y) * scale * scale) / scale))
    _).trans ?_
  rw [add_comm (1 / (scale : ℝ))]
  refine add_le_add ?_ hlength
  -- what is left is the error of one whole division
  rw [pointTangent]
  generalize natSqrt ((x * x + y * y) * scale * scale) = length
  cases left with
  | true =>
      have hdivision := abs_fixedQuotient_sub_le bits (length + x * scale) (Nat.mul_pos hy hscale)
      rw [show ((length + x * scale : ℕ) : ℝ) / (y * scale : ℕ) =
        (length / scale + x) / y by push_cast; field_simp]
        at hdivision
      exact hdivision
  | false =>
      have hdivision := abs_fixedQuotient_sub_le bits (y * scale) (n := length + x * scale)
        (Nat.add_pos_right _ (Nat.mul_pos hx hscale))
      have hlength : (0 : ℝ) ≤ length := Nat.cast_nonneg length
      rw [show ((y * scale : ℕ) : ℝ) / (length + x * scale : ℕ) =
        y / (length / scale + x) by push_cast; field_simp]
        at hdivision
      exact hdivision

/-- The cosine of the angle of a point, from the point. -/
noncomputable def cosineOf (left : Bool) (x y : Nat) : ℝ :=
  if left then -(x / √(x ^ 2 + y ^ 2)) else x / √(x ^ 2 + y ^ 2)

/-- The angle of a point is rounded from a number with nine correct decimals. -/
theorem approximates_ofPoint (left : Bool) {x y : Nat} (hx : 0 < x) (hy : 0 < y)
    (hangle : 1 / 10 ^ 8 ≤ Real.arccos (cosineOf left x y)) :
    ∃ r, |r - Real.arccos (cosineOf left x y)| ≤ 3 / 10 ^ 9 ∧
      Approximates (ofPoint .positive left x y) r := by
  have hx' : (0 : ℝ) < x := by exact_mod_cast hx
  have hy' : (0 : ℝ) < y := by exact_mod_cast hy
  rw [ofPoint_eq]
  generalize hbits : 128 + (x.log2 - y.log2) = bits
  have htangent := abs_pointTangent_sub_le (show 0 < 1 <<< 128 by decide) bits left hx hy
  generalize pointTangent (1 <<< 128) bits left x y = t at htangent
  have harctan := abs_arctan_sub_le bits t (by omega)
  have hexact := two_mul_arctan_tangentOf left hx'.le hy' (h := √(x ^ 2 + y ^ 2)) (by positivity)
    (Real.sq_sqrt (by positivity))
  rw [← cosineOf] at hexact
  have hlast : 1 / (2 : ℝ) ^ bits ≤ 1 / 2 ^ 128 :=
    one_div_le_one_div_of_le (by positivity) (pow_le_pow_right₀ one_le_two (by omega))
  have hclose := (abs_arctan_sub_arctan_le _ _).trans htangent
  generalize arctan bits t = a at harctan
  have herror : |2 * (a / 2 ^ bits) - Real.arccos (cosineOf left x y)| ≤ 3 / 10 ^ 9 := by
    rw [← hexact, ← mul_sub, abs_mul, abs_two]
    rw [Nat.one_shiftLeft, Nat.cast_pow, Nat.cast_ofNat] at hclose
    have htriangle := abs_sub_le (a / 2 ^ bits : ℝ) (Real.arctan (t / 2 ^ bits))
      (Real.arctan (tangentOf left x y √(x ^ 2 + y ^ 2)))
    have htiny : (1 : ℝ) / 2 ^ 128 + 1 / 2 ^ 128 ≤ 1 / (10 ^ 9) / 10 := by norm_num
    linarith
  refine ⟨_, herror, ?_⟩
  have hpos : 0 < 2 * a := by
    by_contra hzero
    obtain rfl : a = 0 := by omega
    rw [Nat.cast_zero, zero_div, mul_zero, zero_sub, abs_neg,
      abs_of_nonneg (Real.arccos_nonneg _)] at herror
    linarith
  have hround := approximates_round hpos (-(bits : ℤ)) .positive
  rw [factor, one_mul, zpow_neg, zpow_natCast, ← div_eq_mul_inv, Nat.cast_mul, Nat.cast_ofNat,
    mul_div_assoc] at hround
  exact hround

/-! ## The arc cosine -/

theorem arccos_point {x y h : ℝ} (hx : 0 < x) (hy : 0 ≤ y) (hh : 0 < h)
    (hsq : h ^ 2 = x ^ 2 + y ^ 2) :
    Real.arccos (x / h) = Real.arctan (y / x) := by
  have hsine : 1 - (x / h) ^ 2 = (y / h) ^ 2 := by
    field_simp
    linarith
  rw [Real.arccos_eq_arctan (div_pos hx hh), hsine, Real.sqrt_sq (by positivity)]
  congr 1
  field_simp

/-- Cutting the sine of an angle down to a whole number of units moves the angle by
less than one part in the cosine. -/
theorem abs_arccos_cosineOf_sub_le (left : Bool) {unit cosine scale : Nat} (hcosine : 0 < cosine)
    (hle : cosine ≤ unit) (hscale : 0 < scale) :
    |Real.arccos (cosineOf left (cosine * scale)
      (natSqrt ((unit - cosine) * (unit + cosine) * (scale * scale)))) -
      Real.arccos (if left then -(cosine / unit : ℝ) else cosine / unit)| ≤ 1 / scale := by
  obtain ⟨hlow, hhigh⟩ := natSqrt_bounds ((unit - cosine) * (unit + cosine) * (scale * scale))
  have hx : (1 : ℝ) ≤ cosine := by exact_mod_cast hcosine
  have hs : (0 : ℝ) < scale := by exact_mod_cast hscale
  have hle' : (cosine : ℝ) ≤ unit := by exact_mod_cast hle
  push_cast [Nat.cast_sub hle] at hlow hhigh
  generalize natSqrt ((unit - cosine) * (unit + cosine) * (scale * scale)) = y at hlow hhigh
  have hexact : Real.arccos (cosine / unit) =
      Real.arctan (√((unit - cosine) * (unit + cosine) * (scale * scale)) / (cosine * scale)) := by
    rw [← mul_div_mul_right (cosine : ℝ) unit hs.ne']
    refine arccos_point (by positivity) (Real.sqrt_nonneg _) (mul_pos (by linarith) hs) ?_
    rw [Real.sq_sqrt (mul_nonneg (mul_nonneg (by linarith) (by linarith)) (by positivity))]
    ring
  have hcut : Real.arccos ((cosine * scale : ℕ) / √((cosine * scale : ℕ) ^ 2 + (y : ℝ) ^ 2)) =
      Real.arctan (y / (cosine * scale : ℕ)) :=
    arccos_point (by push_cast; positivity) (Nat.cast_nonneg y) (by push_cast; positivity)
      (Real.sq_sqrt (by positivity))
  have hclose : |Real.arccos ((cosine * scale : ℕ) / √((cosine * scale : ℕ) ^ 2 + (y : ℝ) ^ 2)) -
      Real.arccos (cosine / unit)| ≤ 1 / scale := by
    rw [hcut, hexact]
    refine (abs_arctan_sub_arctan_le _ _).trans ?_
    push_cast
    rw [← sub_div, abs_div, abs_of_pos (show (0 : ℝ) < cosine * scale by positivity)]
    refine div_le_div₀ zero_le_one ?_ hs (le_mul_of_one_le_left hs.le hx)
    rw [abs_le]
    constructor <;> linarith
  cases left with
  | false => exact hclose
  | true =>
      rw [cosineOf, if_pos rfl, if_pos rfl, Real.arccos_neg, Real.arccos_neg,
        sub_sub_sub_cancel_left, abs_sub_comm]
      exact hclose

theorem value_quarter : value quarter = 13176795 / 2 ^ 23 := by
  have hunpack : quarter.toModel.unpack = .finite .positive 13176795 (-23) (by decide) := rfl
  rw [value_of_unpack hunpack]
  norm_num

theorem value_half : value half = 13176795 / 2 ^ 22 := by
  have hunpack : half.toModel.unpack = .finite .positive 13176795 (-22) (by decide) := rfl
  rw [value_of_unpack hunpack]
  norm_num

theorem digits_eq_ratio (m : Nat) (e : ℤ) :
    (m * 2 ^ e : ℝ) = (m <<< e.toNat : ℕ) / (1 <<< (-e).toNat : ℕ) := by
  rw [Nat.shiftLeft_eq, Nat.shiftLeft_eq, one_mul]
  push_cast
  rcases le_total 0 e with he | he
  · obtain ⟨n, rfl⟩ := Int.eq_ofNat_of_zero_le he
    rw [Int.toNat_natCast, show (-(n : ℤ)).toNat = 0 by omega, pow_zero, div_one, zpow_natCast]
  · obtain ⟨n, hn⟩ := Int.eq_ofNat_of_zero_le (neg_nonneg.mpr he)
    obtain rfl : e = -n := by omega
    rw [neg_neg, Int.toNat_natCast, show (-(n : ℤ)).toNat = 0 by omega, pow_zero, mul_one,
      zpow_neg, zpow_natCast,
      div_eq_mul_inv]

/-- A number below one is at least one unit of the last place below it. -/
theorem digits_le_of_lt_one {m : Nat} {e : ℤ} (hm : m < 2 ^ 24)
    (hlt : (m * 2 ^ e : ℝ) < 1) : (m * 2 ^ e : ℝ) ≤ 1 - 1 / 2 ^ 24 := by
  have hm' : (m : ℝ) ≤ 2 ^ 24 := by exact_mod_cast hm.le
  rcases le_or_gt (-24) e with he | he
  · obtain ⟨n, hn⟩ := Int.eq_ofNat_of_zero_le (show 0 ≤ e + 24 by omega)
    obtain rfl : e = n - 24 := by omega
    have hsplit : (m * 2 ^ ((n : ℤ) - 24) : ℝ) = (m * 2 ^ n : ℕ) / 2 ^ 24 := by
      rw [zpow_sub₀ two_ne_zero, zpow_natCast]
      push_cast
      rw [zpow_ofNat, mul_div_assoc]
    rw [hsplit, div_lt_one (by positivity)] at hlt
    have hwhole : (m * 2 ^ n : ℕ) + 1 ≤ 2 ^ 24 := by exact_mod_cast hlt
    have hwhole' : ((m * 2 ^ n : ℕ) : ℝ) + 1 ≤ 2 ^ 24 := by exact_mod_cast hwhole
    rw [hsplit, div_le_iff₀ (by positivity), sub_mul, one_mul, div_mul_cancel₀ _ (by positivity)]
    linarith
  · have hpower : (2 : ℝ) ^ e ≤ 2 ^ (-25 : ℤ) := zpow_le_zpow_right₀ one_le_two (by omega)
    calc (m * 2 ^ e : ℝ) ≤ 2 ^ 24 * 2 ^ (-25 : ℤ) :=
      mul_le_mul hm' hpower (by positivity) (by positivity)
      _ ≤ 1 - 1 / 2 ^ 24 := by norm_num

/-- An angle with a cosine below one by a unit of the last place is not too
small for nine decimals. -/
theorem le_arccos_of_le {c : ℝ} (hc : c ≤ 1 - 1 / 2 ^ 24) : 1 / 10 ^ 7 ≤ Real.arccos c := by
  have hcos : c ≤ Real.cos (1 / 10 ^ 7) :=
    hc.trans (le_trans (by norm_num) Real.one_sub_sq_div_two_le_cos)
  have hanti := Real.arccos_le_arccos hcos
  rwa [Real.arccos_cos (by positivity) (by linarith [Real.pi_gt_three])] at hanti

end Angle

open Angle

variable {x : Float32}

theorem accurate_of_approximates {z : Float32} {r θ : ℝ} (hz : Approximates z r)
    (hclose : |r - θ| ≤ 4 / 10 ^ 9) (hnonneg : 0 ≤ θ) (hθ : θ ≤ Real.pi) :
    z.isFinite = true ∧ |value z - θ| ≤ 1 / 2 ^ 22 := by
  have hpi := Real.pi_lt_d2
  obtain ⟨hlow, hhigh⟩ := abs_le.mp hclose
  have hr : |r| ≤ 4 := by
    rw [abs_le]
    constructor <;> linarith
  have hrounds := hz.rounds_of_lt (hr.trans_lt (by norm_num))
  have herror := hrounds.abs_sub_le_of_le 127 (by norm_num; exact hr)
  refine ⟨hrounds.finite, (abs_sub_le _ r _).trans ((add_le_add herror hclose).trans ?_)⟩
  norm_num

theorem arccos_eq {sign : Sign} {m unit cosine : Nat} {e : ℤ} {hm : 0 < m}
    (hx : x.toModel.unpack = .finite sign m e hm) (hunit : 1 <<< (-e).toNat = unit)
    (hcosine : m <<< e.toNat = cosine) (hle : cosine ≤ unit) :
    arccos x =
      if natSqrt ((unit - cosine) * (unit + cosine) * (2 ^ 128 * 2 ^ 128)) = 0 then
        if sign == .negative then half else 0
      else ofPoint .positive (sign == .negative) (cosine * 2 ^ 128)
        (natSqrt ((unit - cosine) * (unit + cosine) * (2 ^ 128 * 2 ^ 128))) := by
  subst hunit hcosine
  rw [arccos, hx]
  dsimp only
  rw [if_neg (not_lt.mpr hle), Nat.shiftLeft_eq _ 256, Nat.shiftLeft_eq _ 128, ← Nat.pow_add]

theorem half_accurate : half.isFinite = true ∧ |value half - Real.arccos (-1)| ≤ 1 / 2 ^ 22 := by
  have hpi := Real.pi_gt_d20
  have hpi' := Real.pi_lt_d20
  rw [Real.arccos_neg_one, value_half, abs_le]
  refine ⟨rfl, ?_, ?_⟩ <;> norm_num <;> linarith

theorem quarter_accurate :
    quarter.isFinite = true ∧ |value quarter - Real.arccos 0| ≤ 1 / 2 ^ 22 := by
  have hpi := Real.pi_gt_d20
  have hpi' := Real.pi_lt_d20
  rw [Real.arccos_zero, value_quarter, abs_le]
  refine ⟨rfl, ?_, ?_⟩ <;> norm_num <;> linarith

theorem zero_accurate : (0 : Float32).isFinite = true ∧ |value 0 - Real.arccos 1| ≤ 1 / 2 ^ 22 := by
  rw [Real.arccos_one, value_zero, sub_zero, abs_zero]
  exact ⟨rfl, by positivity⟩

/-- The angle of a point is accurate if its cosine does not come next to one. -/
theorem ofPoint_accurate (left : Bool) {unit cosine : Nat} (hcosine : 0 < cosine)
    (hle : cosine ≤ unit)
    (hsine : natSqrt ((unit - cosine) * (unit + cosine) * (2 ^ 128 * 2 ^ 128)) ≠ 0)
    (hbelow : (if left then -(cosine / unit : ℝ) else cosine / unit) ≤ 1 - 1 / 2 ^ 24) :
    (ofPoint .positive left (cosine * 2 ^ 128)
        (natSqrt ((unit - cosine) * (unit + cosine) * (2 ^ 128 * 2 ^ 128)))).isFinite = true ∧
      |value (ofPoint .positive left (cosine * 2 ^ 128)
        (natSqrt ((unit - cosine) * (unit + cosine) * (2 ^ 128 * 2 ^ 128)))) -
        Real.arccos (if left then -(cosine / unit : ℝ) else cosine / unit)| ≤ 1 / 2 ^ 22 := by
  have hclose := abs_arccos_cosineOf_sub_le left hcosine hle (show 0 < 2 ^ 128 by positivity)
  have hangle := le_arccos_of_le hbelow
  obtain ⟨r, hr, happrox⟩ :=
    approximates_ofPoint left (Nat.mul_pos hcosine (show 0 < 2 ^ 128 by positivity))
    (Nat.pos_of_ne_zero hsine) (by
      have := (abs_le.mp hclose).1
      norm_num at this hangle ⊢
      linarith)
  refine accurate_of_approximates happrox ?_ (Real.arccos_nonneg _) (Real.arccos_le_pi _)
  refine (abs_sub_le _ _ _).trans ((add_le_add hr hclose).trans ?_)
  norm_num

/-- The sine is cut down to zero for no cosine but one. -/
theorem eq_of_sine_eq_zero {unit cosine : Nat} (hcosine : 0 < cosine) (hle : cosine ≤ unit)
    (hsine : natSqrt ((unit - cosine) * (unit + cosine) * (2 ^ 128 * 2 ^ 128)) = 0) :
    unit = cosine := by
  rw [natSqrt_eq, Nat.sqrt_eq_zero] at hsine
  rcases Nat.mul_eq_zero.mp hsine with hproduct | hscale
  · rcases Nat.mul_eq_zero.mp hproduct with hdifference | hsum
    · omega
    · omega
  · exact absurd hscale (by decide)

/-- The arc cosine of a number is the real one to one part in `2 ^ 22`. -/
theorem arccos_accurate (hx : x.isFinite = true) (hone : |value x| ≤ 1) :
    (arccos x).isFinite = true ∧ |value (arccos x) - Real.arccos (value x)| ≤ 1 / 2 ^ 22 := by
  obtain ⟨sign, m, k, -, hu⟩ := exists_spells hx
  rcases hu.shape with ⟨-, hzero⟩ | ⟨hm, hfinite⟩
  · have hvalue : value x = 0 := by rw [value, hzero, unpackedValue_zero]
    have hquarter : arccos x = quarter := by rw [arccos, hzero]
    rw [hvalue, hquarter]
    exact quarter_accurate
  · have hvalue : value x = factor sign * (m * 2 ^ ((k : ℤ) - 149)) := by rw [value, hu.value_eq]
    rw [hvalue, abs_mul, abs_factor, one_mul, abs_of_nonneg (by positivity)] at hone
    have hratio := digits_eq_ratio m (k - 149)
    have hstep := digits_le_of_lt_one (e := (k : ℤ) - 149) hu.canonical.1
    have hcosine : 0 < m <<< ((k : ℤ) - 149).toNat := by
      rw [Nat.shiftLeft_eq]
      positivity
    have hunit : 0 < 1 <<< (-((k : ℤ) - 149)).toNat := by
      rw [Nat.shiftLeft_eq]
      positivity
    have harccos (hle) := arccos_eq hfinite rfl rfl hle
    generalize m <<< ((k : ℤ) - 149).toNat = cosine at hratio hcosine harccos
    generalize 1 <<< (-((k : ℤ) - 149)).toNat = unit at hratio hunit harccos
    rw [hratio] at hone hstep hvalue
    have hunit' : (0 : ℝ) < unit := by exact_mod_cast hunit
    have hle : cosine ≤ unit := by
      rw [div_le_one hunit'] at hone
      exact_mod_cast hone
    rw [harccos hle]
    split
    · rename_i hsine
      obtain rfl := eq_of_sine_eq_zero hcosine hle hsine
      rw [hvalue, div_self hunit'.ne', mul_one]
      cases sign with
      | negative => exact half_accurate
      | positive => exact zero_accurate
    · rename_i hsine
      have hlt : (cosine / unit : ℝ) < 1 := by
        rw [div_lt_one hunit', Nat.cast_lt]
        refine lt_of_le_of_ne hle ?_
        rintro rfl
        exact hsine (by rw [Nat.sub_self, Nat.zero_mul, Nat.zero_mul, natSqrt_eq, Nat.sqrt_zero])
      cases sign with
      | negative =>
          rw [hvalue, factor, neg_one_mul]
          exact ofPoint_accurate true hcosine hle hsine
            ((neg_nonpos.mpr (by positivity)).trans (by norm_num))
      | positive =>
          rw [hvalue, factor, one_mul]
          exact ofPoint_accurate false hcosine hle hsine (hstep hlt)

theorem arccos_eq_zero (hx : x.isFinite = true) (hone : value x = 1) : arccos x = 0 := by
  obtain ⟨sign, m, k, -, hu⟩ := exists_spells hx
  rcases hu.shape with ⟨-, hzero⟩ | ⟨hm, hfinite⟩
  · rw [value, hzero, unpackedValue_zero] at hone
    norm_num at hone
  · rw [value, hu.value_eq, digits_eq_ratio] at hone
    have harccos (hle) := arccos_eq hfinite rfl rfl hle
    have hunit : 0 < 1 <<< (-((k : ℤ) - 149)).toNat := by
      rw [Nat.shiftLeft_eq]
      positivity
    generalize m <<< ((k : ℤ) - 149).toNat = cosine at hone harccos
    generalize 1 <<< (-((k : ℤ) - 149)).toNat = unit at hone hunit harccos
    have hunit' : (0 : ℝ) < unit := by exact_mod_cast hunit
    cases sign with
    | negative =>
        have hsign : 0 ≤ (cosine / unit : ℝ) := by positivity
        rw [factor] at hone
        linarith
    | positive =>
        rw [factor, one_mul, div_eq_one_iff_eq hunit'.ne'] at hone
        obtain rfl : cosine = unit := by exact_mod_cast hone
        rw [harccos le_rfl, Nat.sub_self, Nat.zero_mul, Nat.zero_mul, natSqrt_eq, Nat.sqrt_zero]
        rfl

end Volley
