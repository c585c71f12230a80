import Mathlib
import Volley.Flight
import Volley.Proofs.Number.Root
import Volley.Proofs.Space.Vector

/-!
# Directions

A direction is a vector of length one up to a few roundings. The vector from one point to
another and the normalized vector are directions, as long as the length that they are divided
by is a number and does not vanish.
-/

namespace Volley.Vec3

open Volley.Single Float.Model Float.Model.UnpackedFloat
open scoped RealInnerProductSpace

variable {v w start target : Vec3} {s : Float32}

/-- A vector of length one, up to the roundings of one normalization. -/
structure Unit (v : Vec3) : Prop where
  finite : v.Finite
  low : 1 - 44 / 10 * roundoff ≤ ‖v.real‖
  high : ‖v.real‖ ≤ 1 + 5 * roundoff

theorem Unit.norm (h : v.Unit) : |‖v.real‖ - 1| ≤ 5 * roundoff := by
  rw [abs_le]
  constructor <;> linarith [h.low, h.high, roundoff_pos]

theorem norm_forward : ‖forward.real‖ = 1 := by
  rw [← sq_eq_sq₀ (norm_nonneg _) zero_le_one, norm_sq_eq, real_zero_apply, real_one_apply,
    real_two_apply, forward,
    value_one, value_zero]
  norm_num

theorem forward_unit : forward.Unit := by
  refine ⟨⟨rfl, rfl, rfl⟩, ?_, ?_⟩ <;> rw [norm_forward] <;> linarith [roundoff_pos]

theorem shrink_roundsTo (hv : v.Finite) (hs : s.isFinite = true) (hpos : 0 < value s)
    (hsmall : ‖v.real‖ / value s ≤ 2 ^ 100) : (v.shrink s).RoundsTo ((value s)⁻¹ • v.real) := by
  have hquotient {c : Float32} (hc : c.isFinite = true) (hle : |value c| ≤ ‖v.real‖) :
      Rounds (c / s) ((value s)⁻¹ * value c) := by
    rw [← div_eq_inv_mul]
    refine (approximates_div hc hs hpos.ne').rounds_of_lt ?_
    rw [abs_div, abs_of_pos hpos]
    exact ((div_le_div_of_nonneg_right hle hpos.le).trans hsmall).trans_lt (by norm_num)
  exact ⟨hquotient hv.x (abs_apply_le_norm v.real 0), hquotient hv.y (abs_apply_le_norm v.real 1),
    hquotient hv.z (abs_apply_le_norm v.real 2)⟩

theorem value_leastSeparation : value leastSeparation = 8589935 / 2 ^ 33 := by
  have hunpack : leastSeparation.toModel.unpack = .finite .positive 8589935 (-33) (by decide) := rfl
  rw [value_of_unpack hunpack]
  norm_num

/-- Away from the fallback, the direction is the difference divided by a
length with a relative error. -/
theorem directionTo_spec (hlength : (target - start).length.isFinite = true)
    (hapart : ¬(target - start).length < leastSeparation) :
    ∃ l : ℝ, 1 / 2000 ≤ ‖(target - start).real‖ ∧
      |l - ‖(target - start).real‖| ≤ 251 / 100 * roundoff * ‖(target - start).real‖ ∧ 0 < l ∧
      (start.directionTo target).RoundsTo (l⁻¹ • (target - start).real) := by
  have hdirection : start.directionTo target = (target - start).shrink (target - start).length := by
    rw [directionTo, if_neg hapart]
  rw [hdirection]
  rw [lt_iff_value hlength rfl, value_leastSeparation, not_lt] at hapart
  have hfinite := (finite_of_dot (finite_length_iff.mp hlength)).1
  have hadditive := abs_length_sub_le hlength
  have hn : 1 / 2000 ≤ ‖(target - start).real‖ := by
    have hhigh := (abs_le.mp hadditive).2
    rw [roundoff_eq] at hhigh
    norm_num at hapart hhigh ⊢
    linarith
  have hrelative := abs_length_sub_le_of_le hlength (le_trans (by norm_num) hn)
  have hpos : 0 < value (target - start).length := lt_of_lt_of_le (by norm_num) hapart
  have hratio : ‖(target - start).real‖ / value (target - start).length ≤ 2 ^ 100 := by
    rw [div_le_iff₀ hpos]
    have hlow := (abs_le.mp hrelative).1
    rw [roundoff_eq] at hlow
    norm_num at hlow ⊢
    linarith
  exact ⟨_, hn, hrelative, hpos, shrink_roundsTo hfinite hlength hpos hratio⟩

theorem abs_div_sub_one_le {n l : ℝ} (hl : 0 < l) (h : |l - n| ≤ 251 / 100 * roundoff * n) :
    |n / l - 1| ≤ 252 / 100 * roundoff := by
  rw [div_sub_one hl.ne', abs_div, abs_of_pos hl, div_le_iff₀ hl, abs_sub_comm]
  refine h.trans ?_
  have hlow := (abs_le.mp h).1
  rw [roundoff_eq] at *
  linarith

theorem norm_inv_smul {p : Space} {l : ℝ} (hl : 0 < l) : ‖l⁻¹ • p‖ = ‖p‖ / l := by
  rw [norm_smul, Real.norm_of_nonneg (inv_nonneg.mpr hl.le), ← div_eq_inv_mul]

/-- The direction to a point is shortened by less than three and a half roundings. -/
theorem directionTo_low (hlength : (target - start).length.isFinite = true) :
    1 - 339 / 100 * roundoff ≤ ‖(start.directionTo target).real‖ := by
  have hu := roundoff_pos
  by_cases hapart : (target - start).length < leastSeparation
  · rw [directionTo, if_pos hapart, norm_forward]
    linarith
  · obtain ⟨l, -, hl, hpos, hrounds⟩ := directionTo_spec hlength hapart
    have hratio := (abs_le.mp (abs_div_sub_one_le hpos hl)).1
    rcases hrounds.le_norm with hlong | hnear
    · linarith
    · rw [norm_inv_smul hpos] at hnear
      linarith

theorem directionTo_unit
    (hlength : (target - start).length.isFinite = true) : (start.directionTo target).Unit := by
  by_cases hapart : (target - start).length < leastSeparation
  · rw [directionTo, if_pos hapart]
    exact forward_unit
  · obtain ⟨l, -, hl, hpos, hrounds⟩ := directionTo_spec hlength hapart
    have hlow := directionTo_low hlength
    refine ⟨hrounds.finite, by linarith [roundoff_pos], ?_⟩
    have herror := hrounds.norm_sub_le
    have hreverse := norm_sub_norm_le (start.directionTo target).real (l⁻¹ • (target - start).real)
    rw [norm_inv_smul hpos] at herror hreverse
    have hratio := (abs_le.mp (abs_div_sub_one_le hpos hl)).2
    rw [roundoff_eq] at *
    rw [underflow_eq] at herror
    linarith

/-- The unit vector from one point to another. -/
noncomputable def heading (start target : Vec3) : Space :=
  ‖target.real - start.real‖⁻¹ • (target.real - start.real)

theorem norm_heading_le (start target : Vec3) : ‖heading start target‖ ≤ 1 := by
  rw [heading, norm_smul, norm_inv, norm_norm]
  exact inv_mul_le_one

theorem norm_smul_heading (start target : Vec3) :
    ‖target.real - start.real‖ • heading start target = target.real - start.real := by
  rcases eq_or_ne ‖target.real - start.real‖ 0 with hzero | hne
  · rw [hzero, zero_smul, norm_eq_zero.mp hzero]
  · exact smul_inv_smul₀ hne _

/-- A point on the ray to the target is no farther out than both ends are, or than
the target and the way behind it. -/
theorem norm_add_smul_heading_le {M l r : ℝ} (hstart : ‖start.real‖ ≤ M)
    (htarget : ‖target.real‖ ≤ M) (hl : 0 ≤ l) (hr : 0 ≤ r)
    (hle : l ≤ ‖target.real - start.real‖ + r) :
    ‖start.real + l • heading start target‖ ≤ M + r := by
  have hheading := norm_heading_le start target
  have hsmul := norm_smul_heading start target
  have hlength := norm_nonneg (target.real - start.real)
  rcases le_or_gt l ‖target.real - start.real‖ with hbefore | hbehind
  · rcases hlength.eq_or_lt with hzero | hD
    · obtain rfl : l = 0 := le_antisymm (hbefore.trans_eq hzero.symm) hl
      rw [zero_smul, add_zero]
      linarith
    · have hconvex : start.real + l • heading start target =
          (1 - l / ‖target.real - start.real‖) • start.real +
            (l / ‖target.real - start.real‖) • target.real := by
        rw [heading, smul_smul, ← div_eq_mul_inv]
        module
      have hfraction : l / ‖target.real - start.real‖ ≤ 1 := (div_le_one hD).mpr hbefore
      have hfraction' : 0 ≤ l / ‖target.real - start.real‖ := by positivity
      rw [hconvex]
      refine (norm_add_le _ _).trans ?_
      rw [norm_smul, norm_smul, Real.norm_of_nonneg (sub_nonneg.mpr hfraction),
        Real.norm_of_nonneg hfraction']
      nlinarith
  · have hsplit : start.real + l • heading start target =
        target.real + (l - ‖target.real - start.real‖) • heading start target := by
      rw [sub_smul, hsmul]
      abel
    rw [hsplit]
    refine (norm_add_le _ _).trans (add_le_add htarget ?_)
    rw [norm_smul, Real.norm_of_nonneg (sub_nonneg.mpr hbehind.le)]
    calc (l - ‖target.real - start.real‖) * ‖heading start target‖ ≤
          (l - ‖target.real - start.real‖) * 1 :=
          mul_le_mul_of_nonneg_left hheading (sub_nonneg.mpr hbehind.le)
      _ ≤ r := by linarith

theorem norm_directionTo_sub_heading_le (hlength : (target - start).length.isFinite = true)
    (hapart : ¬(target - start).length < leastSeparation) :
    ‖(start.directionTo target).real - heading start target‖ ≤ 6 * roundoff := by
  obtain ⟨l, hn, hl, hpos, hrounds⟩ := directionTo_spec hlength hapart
  have herror := hrounds.norm_sub_le
  have hfinite := (finite_of_dot (finite_length_iff.mp hlength)).1
  have hdelta := norm_sub_sub_le hfinite
  have hreverse := abs_le.mp ((abs_norm_sub_norm_le _ _).trans hdelta)
  rw [heading]
  generalize target.real - start.real = Δ at hdelta hreverse
  generalize (target - start).real = δ at *
  have hD : 0 < ‖Δ‖ := by
    have := hreverse.2
    rw [roundoff_eq] at this
    linarith
  have hfirst : ‖l⁻¹ • δ - l⁻¹ • Δ‖ ≤ roundoff * (‖Δ‖ / l) := by
    rw [← smul_sub, norm_inv_smul hpos, ← mul_div_assoc]
    exact div_le_div_of_nonneg_right hdelta hpos.le
  have hsecond : ‖l⁻¹ • Δ - ‖Δ‖⁻¹ • Δ‖ = |‖Δ‖ / l - 1| := by
    rw [← sub_smul, norm_smul, Real.norm_eq_abs, ← abs_of_pos hD, ← abs_mul, abs_of_pos hD, sub_mul,
      inv_mul_cancel₀ hD.ne', ← div_eq_inv_mul]
  have hclose : |l - ‖Δ‖| ≤ 372 / 100 * roundoff * ‖Δ‖ := by
    have htriangle := abs_sub_le l ‖δ‖ ‖Δ‖
    have hlow := abs_le.mpr hreverse
    have hhigh := hreverse.2
    rw [roundoff_eq] at *
    linarith
  have hratio : |‖Δ‖ / l - 1| ≤ 373 / 100 * roundoff := by
    rw [div_sub_one hpos.ne', abs_div, abs_of_pos hpos, div_le_iff₀ hpos, abs_sub_comm]
    have hlow := (abs_le.mp hclose).1
    refine hclose.trans ?_
    rw [roundoff_eq] at *
    linarith
  have hratio' := abs_le.mp hratio
  have hother := abs_le.mp (abs_div_sub_one_le hpos hl)
  have htriangle := norm_sub_le_norm_sub_add_norm_sub (start.directionTo target).real
    (l⁻¹ • δ) (‖Δ‖⁻¹ • Δ)
  have htriangle' := norm_sub_le_norm_sub_add_norm_sub (l⁻¹ • δ) (l⁻¹ • Δ) (‖Δ‖⁻¹ • Δ)
  rw [norm_inv_smul hpos] at herror
  rw [hsecond] at htriangle'
  rw [roundoff_eq] at *
  rw [underflow_eq] at herror
  linarith

/-- A length that overflows is an infinity, so the difference divided by it is
zero or no vector at all. -/
theorem norm_directionTo_of_not_finite (hlength : ¬(target - start).length.isFinite = true) :
    ‖(start.directionTo target).real‖ = 0 := by
  have hnot : ¬(target - start).length < leastSeparation :=
    not_sqrt_lt_of_not_finite (mt finite_length_iff.mpr hlength) rfl
  rw [directionTo, if_neg hnot, norm_eq_zero]
  ext i
  match i with
  | 0 => exact value_div_of_not_finite hlength
  | 1 => exact value_div_of_not_finite hlength
  | 2 => exact value_div_of_not_finite hlength

/-! ## Normalization -/

theorem abs_reciprocal_sub_le {l : Float32} (hl : l.isFinite = true) (hlow : 1 / 2 ^ 100 ≤ value l)
    (hhigh : value l ≤ 2 ^ 100) :
    (1 / l).isFinite = true ∧ |value (1 / l) - 1 / value l| ≤ roundoff * (1 / value l) := by
  have hpos : 0 < value l := lt_of_lt_of_le (by norm_num) hlow
  have happrox := approximates_div (x := 1) rfl hl hpos.ne'
  rw [value_one] at happrox
  have hsmall : 1 / value l ≤ 2 ^ 100 := by
    rw [div_le_iff₀ hpos]
    norm_num at hlow ⊢
    linarith
  have hlarge : 1 / 2 ^ 100 ≤ 1 / value l := one_div_le_one_div_of_le hpos hhigh
  have hrounds := happrox.rounds_of_lt (by
    rw [abs_of_pos (by positivity)]
    exact hsmall.trans_lt (by norm_num))
  have herror := hrounds.abs_sub_le_of_ge (by
    rw [abs_of_pos (by positivity)]
    exact le_trans (by norm_num) hlarge)
  rw [abs_of_pos (by positivity : 0 < 1 / value l)] at herror
  exact ⟨hrounds.finite, herror⟩

theorem norm_bounds_of_dot (hdot : (v.dot v).isFinite = true)
    (hlow : 1 / 2 ^ 100 ≤ value (v.dot v)) :
    1 / 2 ^ 51 ≤ ‖v.real‖ ∧ ‖v.real‖ ≤ 2 ^ 65 := by
  have hsquare := abs_le.mp (abs_dot_self_sub_le hdot)
  have hbound := (le_abs_self _).trans_lt (abs_value_lt (v.dot v))
  rw [roundoff_eq, underflow_eq] at hsquare
  constructor
  · refine abs_le_of_sq_le_sq' ?_ (norm_nonneg _) |>.2
    have := hsquare.2
    norm_num at this hlow ⊢
    linarith
  · refine abs_le_of_sq_le_sq' ?_ (by norm_num) |>.2
    have := hsquare.1
    norm_num at this hbound ⊢
    linarith

/-- The reciprocal of the length times the real length is one, up to four roundings. -/
theorem reciprocal_length_spec (hlength : v.length.isFinite = true) (hlow : 1 / 2 ^ 51 ≤ ‖v.real‖)
    (hhigh : ‖v.real‖ ≤ 2 ^ 65) :
    (1 / v.length).isFinite = true ∧ 0 < value (1 / v.length) ∧
      |value (1 / v.length) * ‖v.real‖ - 1| ≤ 353 / 100 * roundoff := by
  have hl := abs_length_sub_le_of_le hlength (le_trans (by norm_num) hlow)
  obtain ⟨hl₁, hl₂⟩ := abs_le.mp hl
  have hlengthLow : 1 / 2 ^ 100 ≤ value v.length := by
    rw [roundoff_eq] at hl₁
    norm_num at hl₁ hlow ⊢
    linarith
  have hlengthHigh : value v.length ≤ 2 ^ 100 := by
    rw [roundoff_eq] at hl₂
    norm_num at hl₂ hhigh ⊢
    linarith
  have hlpos : 0 < value v.length := lt_of_lt_of_le (by norm_num) hlengthLow
  obtain ⟨hfinite, herror⟩ := abs_reciprocal_sub_le hlength hlengthLow hlengthHigh
  have hpos : 0 < value (1 / v.length) := by
    have hbelow := (abs_le.mp herror).1
    have hinv : 0 < 1 / value v.length := by positivity
    rw [roundoff_eq] at hbelow
    linarith
  have hscaled : |value (1 / v.length) * ‖v.real‖ - ‖v.real‖ / value v.length| ≤
      roundoff * (‖v.real‖ / value v.length) := by
    calc |value (1 / v.length) * ‖v.real‖ - ‖v.real‖ / value v.length|
        = |value (1 / v.length) - 1 / value v.length| * ‖v.real‖ := by
          rw [← abs_of_nonneg (norm_nonneg v.real), ← abs_mul, abs_of_nonneg (norm_nonneg v.real)]
          ring_nf
      _ ≤ roundoff * (1 / value v.length) * ‖v.real‖ :=
        mul_le_mul_of_nonneg_right herror (norm_nonneg _)
      _ = roundoff * (‖v.real‖ / value v.length) := by ring
  have hratio := abs_div_sub_one_le hlpos hl
  have htriangle := abs_sub_le (value (1 / v.length) * ‖v.real‖) (‖v.real‖ / value v.length) 1
  have hquotient := (abs_le.mp hratio).2
  refine ⟨hfinite, hpos, ?_⟩
  rw [roundoff_eq] at *
  linarith

theorem normalize?_eq_some (hfinite : (1 / v.length).isFinite = true)
    (hpos : 0 < value (1 / v.length)) :
    v.normalize? = some (v.scale (1 / v.length)) := by
  rw [normalize?]
  refine if_pos ?_
  rw [Bool.and_eq_true, decide_eq_true_eq, lt_iff_value rfl hfinite, value_zero]
  exact ⟨hfinite, hpos⟩

/-- A vector whose squared length is not next to zero is multiplied by what is
almost the reciprocal of its length. -/
theorem normalize?_rounds (hdot : (v.dot v).isFinite = true)
    (hlow : 1 / 2 ^ 100 ≤ value (v.dot v)) :
    v.normalize? = some (v.scale (1 / v.length)) ∧ 0 < value (1 / v.length) ∧
      |value (1 / v.length) * ‖v.real‖ - 1| ≤ 353 / 100 * roundoff ∧
      (v.scale (1 / v.length)).RoundsTo (value (1 / v.length) • v.real) := by
  obtain ⟨hn, hn'⟩ := norm_bounds_of_dot hdot hlow
  obtain ⟨hfinite, hρ, hunit⟩ := reciprocal_length_spec (finite_length_iff.mpr hdot) hn hn'
  refine ⟨normalize?_eq_some hfinite hρ, hρ, hunit,
    scale_roundsTo (finite_scale (finite_of_dot hdot).1 hfinite ?_)⟩
  have hnorm := (abs_le.mp hunit).2
  rw [abs_of_pos hρ, mul_comm]
  rw [roundoff_eq] at hnorm
  linarith

/-- Such a vector is normalized to a multiple of it, up to a rounding of each coordinate. -/
theorem normalize?_spec (hdot : (v.dot v).isFinite = true) (hlow : 1 / 2 ^ 100 ≤ value (v.dot v)) :
    ∃ direction, v.normalize? = some direction ∧ direction.Unit ∧
      ∃ ρ : ℝ, 0 < ρ ∧ ‖direction.real - ρ • v.real‖ ≤ 2 * roundoff := by
  obtain ⟨hnormalize, hρ, hunit, hrounds⟩ := normalize?_rounds hdot hlow
  have hscale := hrounds.norm_sub_le
  have hlong := hrounds.le_norm
  have hreverse := norm_sub_norm_le (v.scale (1 / v.length)).real (value (1 / v.length) • v.real)
  rw [norm_smul, Real.norm_of_nonneg hρ.le] at hscale hreverse hlong
  obtain ⟨hbelow, habove⟩ := abs_le.mp hunit
  refine ⟨_, hnormalize, ⟨hrounds.finite, ?_, ?_⟩, _, hρ, ?_⟩
  · rcases hlong with hlong | hlong <;> linarith [roundoff_pos]
  · rw [roundoff_eq] at *
    rw [underflow_eq] at hscale
    linarith
  · rw [roundoff_eq] at *
    rw [underflow_eq] at hscale
    linarith

/-- A vector of almost unit length is hardly shortened when it is normalized, and the
less so the closer its length is. -/
theorem le_norm_normalized (hdot : (v.dot v).isFinite = true) (hlow : 9 / 10 ≤ ‖v.real‖)
    (hhigh : ‖v.real‖ ≤ 1001 / 1000) :
    1 - 238 / 100 * roundoff - 152 / 100 * (1 - ‖v.real‖) ^ 2 ≤
      ‖(v.scale (1 / v.length)).real‖ := by
  have hsquare := abs_le.mp (abs_dot_self_sub_le hdot)
  generalize hn : ‖v.real‖ = n at *
  have hsmall : n ^ 2 ≤ 1003 / 1000 := by nlinarith
  have hlarge : 81 / 100 ≤ n ^ 2 := by nlinarith
  have hnear : 1 / 2 ≤ value (v.dot v) ∧ value (v.dot v) ≤ 3 / 2 := by
    rw [roundoff_eq, underflow_eq] at hsquare
    constructor <;> linarith
  obtain ⟨-, hρ, -, hrounds⟩ := normalize?_rounds hdot (le_trans (by norm_num) hnear.1)
  have htangent : (3 - value (v.dot v)) / 2 ≤ value (1 / v.length) :=
    tangent_le_reciprocal_sqrt hdot hnear.1 hnear.2
  rcases hrounds.le_norm with hlong | hclose
  · nlinarith [roundoff_pos, sq_nonneg (1 - n)]
  · rw [norm_smul, Real.norm_of_nonneg hρ.le, hn] at hclose
    have hscaled := mul_le_mul_of_nonneg_right htangent (show 0 ≤ n by linarith)
    have hcubic : n ^ 3 ≤ 1005 / 1000 := by nlinarith
    have htouch : (3 - value (v.dot v)) / 2 * n ≥
        1 - (1 - n) ^ 2 * (n + 2) / 2 -
          (3001 / 1000 * roundoff * n ^ 3 + 4 * underflow * n) / 2 := by
      have hbound := mul_le_mul_of_nonneg_right hsquare.2 (show 0 ≤ n by linarith)
      nlinarith
    have hquadratic : (1 - n) ^ 2 * (n + 2) / 2 ≤ 152 / 100 * (1 - n) ^ 2 := by
      nlinarith [sq_nonneg (1 - n)]
    have hrest : (3001 / 1000 * roundoff * n ^ 3 + 4 * underflow * n) / 2 ≤
        151 / 100 * roundoff := by
      rw [roundoff_eq, underflow_eq]
      linarith
    linarith [roundoff_pos]

theorem normalize?_eq_none
    (h : ¬((v.dot v).isFinite = true ∧ 0 < value (v.dot v))) : v.normalize? = none := by
  rw [normalize?]
  refine if_neg fun hreciprocal => h ?_
  rw [Bool.and_eq_true, decide_eq_true_eq] at hreciprocal
  exact pos_of_reciprocal_sqrt hreciprocal.1 hreciprocal.2

end Volley.Vec3
