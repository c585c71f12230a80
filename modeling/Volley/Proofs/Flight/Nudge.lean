import Mathlib
import Volley.Proofs.Flight.Turn

/-!
# Turns with a small budget

Next to zero an angle is measured by an inner product next to one, where every rounding counts.
A budget may be so small that the roundings alone come to a thousandth, so they are counted for
each step: the lengths of both directions, the share of the angle, the mixture, its
normalization and the inner product itself.
-/

namespace Volley.Flight

open Single Real Float.Model Float.Model.UnpackedFloat
open Vec3 (separation)
open scoped RealInnerProductSpace

variable {direction desired : Vec3} {budget : Float32} {b : ℝ}

/-! ## Angles from inner products -/

/-- An inner product that falls short of one by hardly more than the cosine of the budget does. -/
theorem angle_le_add_of_short (hdot : (direction.dot desired).isFinite = true) (hb : 0 ≤ b)
    (hb' : b ≤ 1 / 200)
    (h : 1 - value (direction.dot desired) ≤ b ^ 2 / 2 + 999 / 10 ^ 6 * b + 838 / 100 * roundoff) :
    value (angle direction desired) ≤ b + 1 / 1000 := by
  have hc : 0 ≤ b + (1 / 1000 - 4 * roundoff) := by
    rw [roundoff_eq]
    linarith
  have hcos : cos (b + (1 / 1000 - 4 * roundoff)) ≤ value (direction.dot desired) := by
    generalize hγ : b + (1 / 1000 - 4 * roundoff) = γ at hc ⊢
    have hγ' : γ ≤ 6 / 1000 := by
      rw [← hγ, roundoff_eq]
      linarith
    have hbound := (abs_le.mp (cos_bound (x := γ) (by rw [abs_of_nonneg hc]; linarith))).2
    have hfourth : γ ^ 4 ≤ (6 / 1000) ^ 4 := pow_le_pow_left₀ hc hγ' 4
    have hsquare : γ ^ 2 = b ^ 2 + 2 * (1 / 1000 - 4 * roundoff) * b +
        (1 / 1000 - 4 * roundoff) ^ 2 := by
      rw [← hγ]
      ring
    rw [abs_of_nonneg hc] at hbound
    rw [roundoff_eq] at *
    norm_num at hfourth hsquare
    linarith
  have hangle := angle_le_of_cos_le hdot hc (by linarith [pi_gt_three, roundoff_pos]) hcos
  linarith

/-- An inner product of two directions is short by two roundings, or else the
directions are hardly short at all. -/
theorem dot_cases (hdirection : direction.Unit) (hdesired : desired.Unit)
    (hnear : 0 ≤ ⟪direction.real, desired.real⟫) :
    1 ≤ value (direction.dot desired) ∨
      ⟪direction.real, desired.real⟫ - 201 / 100 * roundoff ≤ value (direction.dot desired) ∨
      1 - 11 / 10 * roundoff ≤ ‖direction.real‖ * ‖desired.real‖ ∧
        ⟪direction.real, desired.real⟫ - 252 / 100 * roundoff ≤ value (direction.dot desired) := by
  have hdot := (abs_dot_sub_cos_le hdirection hdesired).1
  have hproduct : ‖direction.real‖ * ‖desired.real‖ ≤ 1 + 101 / 10 * roundoff := by
    have hle := mul_le_mul hdirection.high hdesired.high (norm_nonneg _)
      (by linarith [roundoff_pos])
    rw [roundoff_eq] at *
    linarith
  have hlow := (abs_le.mp (Vec3.abs_dot_sub_le hdot)).1
  rcases le_or_gt 1 (value (direction.dot desired)) with hlarge | hsmall
  · exact .inl hlarge
  · rw [roundoff_eq] at hproduct
    have habove : -1 < value (direction.dot desired) := by
      rw [roundoff_eq, underflow_eq] at hlow
      linarith
    obtain ⟨hany, hshort⟩ := Vec3.le_dot hdot habove hsmall (by linarith)
    rcases lt_or_ge (‖direction.real‖ * ‖desired.real‖) (1 - 11 / 10 * roundoff) with hlt | hge
    · refine .inr (.inl ?_)
      have hclose := hshort hlt
      rw [roundoff_eq, underflow_eq] at *
      linarith
    · refine .inr (.inr ⟨hge, ?_⟩)
      rw [roundoff_eq, underflow_eq] at *
      linarith

theorem norm_mul_le_inner (v w : Vec3) :
    ‖w.real‖ * (‖v.real‖ - ‖v.real‖ * (separation v w ^ 2 / 2)) ≤ ⟪v.real, w.real⟫ := by
  have hcos := mul_le_mul_of_nonneg_left (one_sub_sq_div_two_le_cos (x := separation v w))
    (mul_nonneg (norm_nonneg v.real) (norm_nonneg w.real))
  have hinner := InnerProductGeometry.cos_angle_mul_norm_mul_norm v.real w.real
  rw [← separation] at hinner
  linarith

/-- What the inner product of two directions falls short of one, from a bound
on the angle between them. -/
theorem one_sub_dot_le (hdirection : direction.Unit) (hdesired : desired.Unit) {χ k : ℝ}
    (hχ : separation direction desired ≤ χ) (hχ' : χ ≤ 1) (hk : 362 / 100 * roundoff ≤ k)
    (hk' : 1 - ‖direction.real‖ * ‖desired.real‖ + 201 / 100 * roundoff ≤ k) :
    1 - value (direction.dot desired) ≤ 1000001 / 10 ^ 6 * (χ ^ 2 / 2) + k := by
  have hsquare := pow_le_pow_left₀ (Vec3.separation_nonneg direction desired) hχ 2
  have hinner := norm_mul_le_inner direction desired
  have hproduct : ‖direction.real‖ * ‖desired.real‖ ≤ 1000001 / 10 ^ 6 := by
    have hle := mul_le_mul hdirection.high hdesired.high (norm_nonneg _)
      (by linarith [roundoff_pos])
    rw [roundoff_eq] at *
    linarith
  have hnonneg := mul_nonneg (norm_nonneg direction.real) (norm_nonneg desired.real)
  have hloss : ‖direction.real‖ * ‖desired.real‖ * (separation direction desired ^ 2 / 2) ≤
      1000001 / 10 ^ 6 * (χ ^ 2 / 2) :=
    mul_le_mul hproduct (by linarith) (by positivity) (by norm_num)
  have hpositive : 0 ≤ ⟪direction.real, desired.real⟫ := by
    have hnear : χ ^ 2 ≤ 1 := pow_le_one₀ ((Vec3.separation_nonneg _ _).trans hχ) hχ'
    linarith [mul_nonneg hnonneg (show 0 ≤ 1 - separation direction desired ^ 2 / 2 by linarith)]
  rcases dot_cases hdirection hdesired hpositive with hlarge | hclose | ⟨hlength, hclose⟩
  · linarith [roundoff_pos, sq_nonneg χ]
  · linarith
  · linarith

/-- The least angle that is measured, apart from zero. -/
theorem le_angle_of_pos (hdot : (direction.dot desired).isFinite = true)
    (hpos : 0 < value (angle direction desired)) :
    345 / 10 ^ 6 ≤ value (angle direction desired) := by
  obtain ⟨hclamp, hvalue, hone⟩ := clamp_spec hdot
  have hne : value (clamp (direction.dot desired) (-1) 1) ≠ 1 := by
    intro hsame
    rw [angle, arccos_eq_zero hclamp hsame, value_zero] at hpos
    exact lt_irrefl _ hpos
  have hlast : value (clamp (direction.dot desired) (-1) 1) ≤ 1 - roundoff := by
    rcases le_or_gt (1 / 2) (value (clamp (direction.dot desired) (-1) 1)) with hhalf | hsmall
    · obtain ⟨n, hn⟩ := exists_multiple_of_ge (x := clamp (direction.dot desired) (-1) 1) 125
        (by norm_num; exact hhalf)
      norm_num at hn
      have hlt := lt_of_le_of_ne (le_of_abs_le hone) hne
      rw [hn] at hlt
      have hwhole : n < 2 ^ 24 := by
        have : (n : ℝ) < 2 ^ 24 := by linarith
        exact_mod_cast this
      have hwhole' : (n : ℝ) ≤ 2 ^ 24 - 1 := by exact_mod_cast Int.le_sub_one_of_lt hwhole
      rw [hn, roundoff_eq]
      linarith
    · rw [roundoff_eq]
      linarith
  have hcos : value (clamp (direction.dot desired) (-1) 1) ≤ cos (34526 / 10 ^ 8) := by
    refine hlast.trans (le_trans ?_ one_sub_sq_div_two_le_cos)
    rw [roundoff_eq]
    norm_num
  have harccos := arccos_le_arccos hcos
  rw [arccos_cos (by norm_num) (by linarith [pi_gt_three])] at harccos
  have hlow := (abs_le.mp (arccos_accurate hclamp hone).2).1
  rw [angle]
  linarith

/-- A direction and itself measure little more than a thousandth. -/
theorem angle_self_le (hdirection : direction.Unit) :
    value (angle direction direction) ≤ 1 / 5000 + 1 / 1000 := by
  have hdot := (abs_dot_sub_cos_le hdirection hdirection).1
  have hsquare : 1 - 88 / 10 * roundoff ≤ ⟪direction.real, direction.real⟫ := by
    have hlow := hdirection.low
    rw [real_inner_self_eq_norm_mul_norm]
    rw [roundoff_eq] at *
    nlinarith
  refine angle_le_add_of_short hdot (by norm_num) (by norm_num) ?_
  have hcases := dot_cases hdirection hdirection (by rw [roundoff_eq] at hsquare; linarith)
  rw [roundoff_eq] at *
  rcases hcases with hlarge | hclose | ⟨-, hclose⟩ <;> linarith

/-! ## The length of a turn, and how far it goes -/

namespace Partway

variable (partway : Partway direction desired budget)

include partway

theorem share_mul_angle_le_mul :
    share direction desired budget * value (angle direction desired) ≤
      1000001 / 10 ^ 6 * value budget + 1 / 10 ^ 40 := by
  have hhigh := (abs_le.mp partway.abs_share_mul_angle_sub_le).2
  have hangle := partway.angle_le
  have hbudget := partway.value_nonneg
  rw [roundoff_eq, underflow_eq] at *
  linarith [pi_le_four]

/-- A mixture of almost unit length has a squared length that is safely measured. -/
theorem mixture_near {e : ℝ} (hnear : 1 - e ≤ ‖mark direction desired budget‖) (he : e ≤ 1 / 20) :
    |1 - ‖(mixture direction desired budget).real‖| ≤ e + 9 * roundoff ∧
      ((mixture direction desired budget).dot (mixture direction desired budget)).isFinite = true ∧
      1 / 2 ^ 100 ≤ value ((mixture direction desired budget).dot
        (mixture direction desired budget)) := by
  obtain ⟨hfinite, hclose⟩ := partway.mixture_spec
  have hshort := partway.norm_mark_le_one
  obtain ⟨hbelow, habove⟩ := abs_le.mp ((abs_norm_sub_norm_le _ _).trans hclose)
  have hu' : roundoff ≤ 1 / 10 ^ 7 := by rw [roundoff_eq]; norm_num
  have hdot := Vec3.finite_dot hfinite hfinite (show _ ≤
    2 ^ 125 by nlinarith [norm_nonneg (mixture direction desired budget).real])
  refine ⟨abs_le.mpr ⟨by linarith, by linarith⟩, hdot, ?_⟩
  have herror := (abs_le.mp (Vec3.abs_dot_self_sub_le hdot)).1
  have hpow := pow_le_pow_left₀ (by norm_num)
    (show 94 / 100 ≤ ‖(mixture direction desired budget).real‖ by linarith) 2
  rw [roundoff_eq, underflow_eq] at herror
  norm_num at herror hpow ⊢
  linarith

/-- A turn that normalizes a mixture of almost unit length is a direction of hardly less. -/
theorem turn_near {e : ℝ} (hnear : 1 - e ≤ ‖mark direction desired budget‖) (he : e ≤ 1 / 20) :
    (turn direction desired budget).Unit ∧
      1 - 238 / 100 * roundoff - 152 / 100 * (e + 9 * roundoff) ^ 2 ≤
        ‖(turn direction desired budget).real‖ ∧
      InnerProductGeometry.angle (turn direction desired budget).real
        (mark direction desired budget) ≤ 2 / 10 ^ 6 := by
  obtain ⟨hlength, hdot, hsquare⟩ := partway.mixture_near hnear he
  have hclose := partway.mixture_spec.2
  obtain ⟨hbelow, habove⟩ := abs_le.mp ((abs_norm_sub_norm_le _ _).trans hclose)
  have hu : roundoff ≤ 1 / 10 ^ 7 := by rw [roundoff_eq]; norm_num
  obtain ⟨hnormalize, -⟩ := Vec3.normalize?_rounds hdot hsquare
  obtain ⟨other, hother, hunit, hangle⟩ := Vec3.normalize?_angle hdot hsquare
  obtain rfl := Option.some.inj (hother.symm.trans hnormalize)
  rw [turn_of_not_le partway.beyond, hnormalize, Option.getD_some]
  refine ⟨hunit, ?_, ?_⟩
  · have hlong := Vec3.le_norm_normalized hdot (by linarith [partway.norm_mark_le_one])
      (by linarith [partway.norm_mark_le_one])
    linarith [sq_le_sq.mpr (hlength.trans (le_abs_self _))]
  · have hmixed : InnerProductGeometry.angle (mixture direction desired budget).real
        (mark direction desired budget) ≤
        2 * (10 * roundoff) := by
      refine Vec3.angle_le_of_norm_sub_le (norm_pos_iff.mp (by linarith)) ?_ (hclose.trans ?_)
      · rw [roundoff_eq]
        norm_num
      · rw [roundoff_eq]
        linarith
    have htriangle := InnerProductGeometry.angle_le_angle_add_angle
      ((mixture direction desired budget).scale
        (1 / (mixture direction desired budget).length)).real
      (mixture direction desired budget).real (mark direction desired budget)
    rw [roundoff_eq] at hangle hmixed
    linarith

theorem one_sub_cos_le :
    1 - cos (separation direction desired) ≤
      (value (angle direction desired) + 4 * roundoff) ^ 2 / 2 + 14 * roundoff := by
  obtain ⟨-, θ, hθ, -, hmeasured, hcos⟩ := angle_spec partway.unit partway.unit_desired
  have hsquare := pow_le_pow_left₀ hθ (show θ ≤ value (angle direction desired) + 4 * roundoff by
    linarith [(abs_le.mp hmeasured).1]) 2
  linarith [one_sub_sq_div_two_le_cos (x := θ), (abs_le.mp hcos).2]

/-- A direction that is short makes the real angle smaller than the measured one,
since the inner product counts both. -/
theorem norm_mul_one_sub_cos_le :
    ‖direction.real‖ * (1 - cos (separation direction desired)) ≤
      ‖direction.real‖ - 1 + (value (angle direction desired) + 4 * roundoff) ^ 2 / 2 +
        802 / 100 * roundoff := by
  have hdot := (abs_dot_sub_cos_le partway.unit partway.unit_desired).1
  obtain ⟨hclamp, hvalue, hone⟩ := clamp_spec hdot
  have hu := roundoff_pos
  have hlow := (abs_le.mp hone).1
  have hlong := partway.unit.high
  have hinner : |⟪direction.real, desired.real⟫ -
      ‖direction.real‖ * cos (separation direction desired)| ≤
      501 / 100 * roundoff := by
    rw [← InnerProductGeometry.cos_angle_mul_norm_mul_norm, ← separation, mul_comm, mul_right_comm,
      ← mul_sub_one, abs_mul]
    have hpart : |‖direction.real‖ * cos (separation direction desired)| ≤ 1 + 5 * roundoff := by
      rw [abs_mul, abs_norm]
      exact (mul_le_of_le_one_right (norm_nonneg _) (abs_cos_le_one _)).trans hlong
    refine (mul_le_mul hpart partway.unit_desired.norm (abs_nonneg _) (by linarith)).trans ?_
    rw [roundoff_eq]
    norm_num
  have hnear : value (clamp (direction.dot desired) (-1) 1) ≤
      ‖direction.real‖ * cos (separation direction desired) + 802 / 100 * roundoff := by
    rw [hvalue]
    refine (min_le_left _ _).trans (max_le ?_ ?_)
    · have hproduct := mul_le_mul hlong partway.unit_desired.high (norm_nonneg _) (by linarith)
      have herror := (abs_le.mp (Vec3.abs_dot_sub_le hdot)).2
      have hhigh := (abs_le.mp hinner).2
      rw [roundoff_eq, underflow_eq] at *
      linarith
    · have hback := mul_le_mul_of_nonneg_left (neg_one_le_cos (separation direction desired))
        (norm_nonneg direction.real)
      linarith
  have hacos := Real.arccos_nonneg (value (clamp (direction.dot desired) (-1) 1))
  have hsquare := pow_le_pow_left₀ hacos
    (show _ ≤ value (angle direction desired) + 4 * roundoff by
      have hmeasured := (abs_le.mp (arccos_accurate hclamp hone).2).1
      rw [angle, roundoff_eq]
      linarith) 2
  have hcos := one_sub_sq_div_two_le_cos
    (x := Real.arccos (value (clamp (direction.dot desired) (-1) 1)))
  rw [cos_arccos hlow (abs_le.mp hone).2] at hcos
  linarith

theorem sq_share_mul_angle_le :
    (share direction desired budget * (value (angle direction desired) + 4 * roundoff)) ^ 2 ≤
      100001 / 10 ^ 5 * value budget ^ 2 + 5 / 10 ^ 7 * value budget + roundoff / 10 ^ 6 := by
  have hangle := partway.share_mul_angle_le_mul
  have hshare := partway.share_nonneg
  have hone := partway.share_le_one
  have hb := partway.value_nonneg
  have hle : share direction desired budget * (value (angle direction desired) + 4 * roundoff) ≤
      1000001 / 10 ^ 6 * value budget + 24 / 10 ^ 8 := by
    rw [roundoff_eq]
    linarith
  refine (pow_le_pow_left₀ (mul_nonneg hshare (by linarith [partway.angle_pos, roundoff_pos]))
    hle 2).trans ?_
  rw [roundoff_eq]
  linarith [sq_nonneg (value budget)]

section Wide

variable (hnudge : value budget ≤ 1 / 200) (hwide : 1 / 5 < value (angle direction desired))

include hwide

theorem share_mul_separation_le_of_wide :
    share direction desired budget * separation direction desired ≤ 10031 / 10 ^ 4 * value budget +
      2 / 10 ^ 40 := by
  have hseparation : separation direction desired ≤
      1003 / 1000 * value (angle direction desired) := by
    rcases le_or_gt (value (angle direction desired)) (3134 / 1000) with hangle | hlarge
    · have hclose := separation_le_add partway.unit partway.unit_desired (by linarith) hangle le_rfl
      linarith
    · linarith [Vec3.separation_le_pi direction desired, pi_lt_d4]
  have hmul := mul_le_mul_of_nonneg_left hseparation partway.share_nonneg
  linarith [partway.share_mul_angle_le_mul, partway.value_nonneg]

theorem le_norm_mark_of_wide :
    1 - (158 / 100 * value budget + 1 / 10 ^ 30) ≤ ‖mark direction desired budget‖ := by
  have hmark := Vec3.le_norm_chord partway.unit.norm_bearing partway.unit_desired.norm_bearing
    (share direction desired budget)
  rw [partway.unit.angle_bearing partway.unit_desired] at hmark
  have hcos := one_sub_sq_div_two_le_cos (x := separation direction desired)
  have hpi := Vec3.separation_le_pi direction desired
  have hnonneg := Vec3.separation_nonneg direction desired
  have hshare := partway.share_mul_separation_le_of_wide hwide
  have hloss : share direction desired budget * (1 - cos (separation direction desired)) ≤
      158 / 100 * value budget + 1 / 10 ^ 30 :=
    calc share direction desired budget * (1 - cos (separation direction desired))
        ≤ share direction desired budget * (separation direction desired ^ 2 / 2) :=
          mul_le_mul_of_nonneg_left (by linarith) partway.share_nonneg
      _ = share direction desired budget * separation direction
          desired * (separation direction desired / 2) := by ring
      _ ≤ (10031 / 10 ^ 4 * value budget + 2 / 10 ^ 40) * (15708 / 10 ^ 4) := by
          refine mul_le_mul hshare (by linarith [pi_lt_d4]) (by linarith) ?_
          linarith [partway.value_nonneg]
      _ ≤ 158 / 100 * value budget + 1 / 10 ^ 30 := by linarith [partway.value_nonneg]
  exact le_trans (by linarith) hmark

include hnudge

theorem separation_turn_le_of_wide :
    separation direction (turn direction desired budget) ≤ 10031 / 10 ^ 4 * value budget +
      3 / 10 ^ 6 := by
  have hmark := partway.le_norm_mark_of_wide hwide
  obtain ⟨-, -, hclose⟩ := partway.turn_near hmark (by linarith)
  have hhalf := partway.share_le_half (by linarith)
  have hchord := Vec3.angle_chord_le_mul partway.unit.norm_bearing partway.unit_desired.norm_bearing
    partway.share_nonneg hhalf (norm_pos_iff.mp (lt_of_lt_of_le (by linarith) hmark))
  rw [partway.unit.angle_bearing partway.unit_desired, partway.unit.angle_bearing_left] at hchord
  have hshare := partway.share_mul_separation_le_of_wide hwide
  have htriangle := separation_turn_le_add direction desired budget
  rw [mark] at hclose htriangle
  linarith

/-- A turn is short by what its budget comes to, and it is never shorter than any direction. -/
theorem le_norm_mul_norm_turn_of_wide :
    1 - 88 / 10 * roundoff ≤ ‖direction.real‖ * ‖(turn direction desired budget).real‖ ∧
      1 - 678 / 100 * roundoff -
        (38 / 10 * value budget ^ 2 + 4 / 10 ^ 6 * value budget + 2 / 10 ^ 12) ≤
        ‖direction.real‖ * ‖(turn direction desired budget).real‖ := by
  obtain ⟨hunit, hlong, -⟩ := partway.turn_near (partway.le_norm_mark_of_wide hwide) (by linarith)
  have hlow := partway.unit.low
  have hb := partway.value_nonneg
  have hrest : 0 ≤ 1 - 238 / 100 * roundoff -
      152 / 100 * (158 / 100 * value budget + 1 / 10 ^ 30 + 9 * roundoff) ^ 2 := by
    rw [roundoff_eq]
    nlinarith
  have hthin := mul_le_mul hlow hunit.low (by rw [roundoff_eq]; norm_num) (norm_nonneg _)
  have hfull := mul_le_mul hlow hlong hrest (norm_nonneg _)
  refine ⟨le_trans ?_ hthin, le_trans ?_ hfull⟩
  · linarith [sq_nonneg roundoff]
  · rw [roundoff_eq]
    nlinarith

theorem turn_le_of_wide :
    value (angle direction (turn direction desired budget)) ≤ value budget + 1 / 1000 := by
  obtain ⟨hunit, -⟩ := partway.turn_near (partway.le_norm_mark_of_wide hwide) (by linarith)
  obtain ⟨hthin, hfull⟩ := partway.le_norm_mul_norm_turn_of_wide hnudge hwide
  have hdot := (abs_dot_sub_cos_le partway.unit hunit).1
  have hb := partway.value_nonneg
  have hu := roundoff_pos
  have hturn := partway.separation_turn_le_of_wide hnudge hwide
  have hsquare : (10031 / 10 ^ 4 * value budget + 3 / 10 ^ 6) ^ 2 =
      (10031 / 10 ^ 4) ^ 2 * value budget ^ 2 + 2 * (10031 / 10 ^ 4) * (3 / 10 ^ 6) * value budget +
        (3 / 10 ^ 6) ^ 2 := by
    ring
  rcases lt_or_ge (value budget) (366 / 10 ^ 7) with htiny | hmore
  · -- The roundings come to less than nine, so to eight at most.
    have hloss := one_sub_dot_le partway.unit hunit hturn (by linarith) (k := 895 / 100 * roundoff)
      (by linarith) (by
      rw [roundoff_eq] at *
      nlinarith)
    refine (angle_le_of_lt hdot ?_).trans (by linarith)
    rw [hsquare, roundoff_eq] at hloss
    rw [roundoff_eq]
    nlinarith
  · refine angle_le_add_of_short hdot hb hnudge ?_
    rcases le_or_gt (value budget) (16 / 10 ^ 5) with hfew | hmany
    · have hbetween := mul_nonneg (sub_nonneg.mpr hmore) (sub_nonneg.mpr hfew)
      have hloss := one_sub_dot_le partway.unit hunit hturn (by linarith)
        (k := 879 / 100 * roundoff +
          (38 / 10 * value budget ^ 2 + 4 / 10 ^ 6 * value budget + 2 / 10 ^ 12))
        (by nlinarith) (by linarith)
      rw [hsquare] at hloss
      rw [roundoff_eq] at *
      nlinarith
    · have hloss := one_sub_dot_le partway.unit hunit hturn (by linarith)
        (k := 1081 / 100 * roundoff) (by linarith) (by linarith)
      rw [hsquare] at hloss
      rw [roundoff_eq] at *
      nlinarith

end Wide

section Narrow

variable (hnudge : value budget ≤ 1 / 200) (hnarrow : value (angle direction desired) ≤ 1 / 5)

include hnarrow

theorem separation_le_of_narrow : separation direction desired ≤ 2002 / 10 ^ 4 := by
  linarith [separation_le_add partway.unit partway.unit_desired (by norm_num) (by norm_num) hnarrow]

theorem sq_separation_le_of_narrow :
    separation direction desired ^ 2 ≤ 10043 / 10 ^ 4 * value (angle direction desired) ^ 2 +
      30 * roundoff := by
  have hnonneg := Vec3.separation_nonneg direction desired
  have hsmall := partway.separation_le_of_narrow hnarrow
  have hcos := partway.one_sub_cos_le
  have hbound := (abs_le.mp
    (cos_bound (x := separation direction desired) (by rw [abs_of_nonneg hnonneg]; linarith))).2
  have hfourth : separation direction desired ^ 4 ≤
      (2002 / 10 ^ 4) ^ 2 * separation direction desired ^ 2 := by
    have hsquare := pow_le_pow_left₀ hnonneg hsmall 2
    nlinarith [sq_nonneg (separation direction desired)]
  rw [abs_of_nonneg hnonneg] at hbound
  rw [roundoff_eq] at *
  nlinarith

theorem separation_le_mul_add_of_narrow :
    separation direction desired ≤ 1003 / 1000 * value (angle direction desired) +
      134 / 10 ^ 5 := by
  have hangle := partway.angle_pos
  have hsquare := partway.sq_separation_le_of_narrow hnarrow
  refine (abs_le_of_sq_le_sq' ?_ (by linarith)).2
  rw [roundoff_eq] at hsquare
  nlinarith

theorem share_mul_separation_le_of_narrow :
    share direction desired budget * separation direction desired ≤
      1004 / 1000 * value budget + 134 / 10 ^ 5 * share direction desired budget + 1 / 10 ^ 30 := by
  have hmul := mul_le_mul_of_nonneg_left (partway.separation_le_mul_add_of_narrow hnarrow)
    partway.share_nonneg
  linarith [partway.share_mul_angle_le_mul, partway.value_nonneg]

theorem le_norm_mark_of_narrow :
    1 - (1005 / 10 ^ 4 * value budget + 15 * roundoff) ≤ ‖mark direction desired budget‖ := by
  have hmark := Vec3.le_norm_chord partway.unit.norm_bearing partway.unit_desired.norm_bearing
    (share direction desired budget)
  rw [partway.unit.angle_bearing partway.unit_desired] at hmark
  have hcos := mul_le_mul_of_nonneg_left (partway.one_sub_cos_le) partway.share_nonneg
  have hshare := partway.share_mul_angle_le_mul
  have hone := partway.share_le_one
  have hangle := partway.angle_pos
  have hb := partway.value_nonneg
  have hhalf : share direction desired budget * (value (angle direction desired) + 4 * roundoff) *
      (value (angle direction desired) + 4 * roundoff) ≤
        (1000001 / 10 ^ 6 * value budget + 1 / 10 ^ 40 + 4 * roundoff) * (1 / 5 +
          4 * roundoff) := by
    have hu := roundoff_pos
    refine mul_le_mul ?_ (by linarith) (by linarith) (by positivity)
    nlinarith
  refine le_trans ?_ hmark
  rw [roundoff_eq] at *
  linarith

theorem norm_mul_sq_share_le_of_narrow :
    ‖direction.real‖ * ((share direction desired budget * separation direction desired) ^ 2 / 2) ≤
      share direction desired budget ^ 2 * (‖direction.real‖ - 1) +
        (share direction desired budget * (value (angle direction desired) +
          4 * roundoff)) ^ 2 / 2 +
        802 / 100 * roundoff * share direction desired budget ^ 2 +
        21 / 10 ^ 4 * (share direction desired budget * separation direction desired) ^ 2 := by
  have hs := Vec3.separation_nonneg direction desired
  have hsmall := partway.separation_le_of_narrow hnarrow
  have hbound := (abs_le.mp
    (cos_bound (x := separation direction desired) (by rw [abs_of_nonneg hs]; linarith))).2
  rw [abs_of_nonneg hs] at hbound
  have hweighted := mul_le_mul_of_nonneg_left partway.norm_mul_one_sub_cos_le
    (sq_nonneg (share direction desired budget))
  have hrest := mul_le_mul_of_nonneg_left hbound
    (mul_nonneg (norm_nonneg direction.real) (sq_nonneg (share direction desired budget)))
  have hfourth : ‖direction.real‖ * (share direction desired budget ^ 2 * separation direction
      desired ^ 4) * (5 / 96) ≤
      21 / 10 ^ 4 * (share direction desired budget * separation direction desired) ^ 2 := by
    have hlong : ‖direction.real‖ ≤ 1001 / 1000 := by
      have := partway.unit.high
      rw [roundoff_eq] at this
      linarith
    have hsquare := mul_le_mul hlong (pow_le_pow_left₀ hs hsmall 2) (sq_nonneg _) (by norm_num)
    have hmul := mul_le_mul_of_nonneg_right hsquare
      (sq_nonneg (share direction desired budget * separation direction desired))
    linarith [sq_nonneg (share direction desired budget * separation direction desired)]
  linarith

theorem sq_share_mul_separation_le_of_narrow :
    (share direction desired budget * separation direction desired) ^ 2 ≤
      1009 / 1000 * value budget ^ 2 +
      27 / 10 ^ 4 * value budget + 18 / 10 ^ 7 * share direction desired budget ^ 2 +
        1 / 10 ^ 20 := by
  have hshare := partway.share_nonneg
  have hb := partway.value_nonneg
  refine (pow_le_pow_left₀ (mul_nonneg hshare (Vec3.separation_nonneg _ _))
    (partway.share_mul_separation_le_of_narrow hnarrow) 2).trans ?_
  linarith [mul_le_of_le_one_left hb partway.share_le_one, partway.share_le_one,
    sq_nonneg (value budget),
    sq_nonneg (share direction desired budget)]

include hnudge

theorem separation_turn_le_of_narrow :
    separation direction (turn direction desired budget) ≤
      share direction desired budget * separation direction desired + 3 / 10 ^ 6 := by
  have hmark := partway.le_norm_mark_of_narrow hnarrow
  have hu : roundoff ≤ 1 / 10 ^ 6 := by rw [roundoff_eq]; norm_num
  obtain ⟨-, -, hclose⟩ := partway.turn_near hmark (by linarith)
  have hne : mark direction desired budget ≠ 0 :=
    norm_pos_iff.mp (lt_of_lt_of_le (by linarith) hmark)
  have hchord : InnerProductGeometry.angle direction.real (mark direction desired budget) ≤
      share direction desired budget * separation direction desired + 1 / 10 ^ 6 := by
    rw [← partway.unit.angle_bearing_left, ← partway.unit.angle_bearing partway.unit_desired]
    rcases le_or_gt (share direction desired budget) (1 / 2) with hhalf | hmost
    · exact (Vec3.angle_chord_le_mul partway.unit.norm_bearing partway.unit_desired.norm_bearing
        partway.share_nonneg hhalf
        hne).trans (by linarith)
    · -- A great share of a small budget makes the angle itself small.
      refine Vec3.angle_chord_le_add_of_short partway.unit.norm_bearing
        partway.unit_desired.norm_bearing
        partway.share_nonneg partway.share_le_one ?_ hne
      rw [partway.unit.angle_bearing partway.unit_desired]
      have hmul := mul_le_mul_of_nonneg_right hmost.le partway.angle_pos.le
      have hangle : value (angle direction desired) ≤ 101 / 10 ^ 4 := by
        linarith [partway.share_mul_angle_le_mul]
      have hsquare := partway.sq_separation_le_of_narrow hnarrow
      have hpow := pow_le_pow_left₀ partway.angle_pos.le hangle 2
      refine (abs_le_of_sq_le_sq' ?_ (by norm_num)).2
      rw [roundoff_eq] at hsquare
      linarith
  have htriangle := separation_turn_le_add direction desired budget
  exact (htriangle.trans (add_le_add hchord hclose)).trans (by linarith)

/-- How far a turn goes, squared, and counted for the length of the old direction. -/
theorem norm_mul_sq_separation_turn_le_of_narrow :
    ‖direction.real‖ * (separation direction (turn direction desired budget) ^ 2 / 2) ≤
      share direction desired budget ^ 2 * (‖direction.real‖ - 1) +
        (5022 / 10 ^ 4 * value budget ^ 2 + 9 / 10 ^ 6 * value budget +
          (4 / 100 + 814 / 100 * share direction desired budget ^ 2) * roundoff) := by
  have hpow := pow_le_pow_left₀ (Vec3.separation_nonneg direction (turn direction desired budget))
    (partway.separation_turn_le_of_narrow hnudge hnarrow) 2
  have hshare := partway.share_mul_separation_le_of_narrow hnarrow
  have hmeasured := partway.sq_share_mul_angle_le
  have hreal := partway.sq_share_mul_separation_le_of_narrow hnarrow
  have hquadratic := partway.norm_mul_sq_share_le_of_narrow hnarrow
  have hlong := partway.unit.high
  have hnonneg := mul_nonneg partway.share_nonneg (Vec3.separation_nonneg direction desired)
  have hmean := sq_nonneg (share direction desired budget - 1)
  have hshare' := sq_nonneg (share direction desired budget)
  have hbudget := sq_nonneg (value budget)
  have hsteps := mul_le_mul_of_nonneg_left hpow (norm_nonneg direction.real)
  have hlate : ‖direction.real‖ * (3 / 10 ^ 6 * (share direction desired budget * separation
      direction desired) +
      45 / 10 ^ 13) ≤ 1000001 / 10 ^ 6 *
        (3 / 10 ^ 6 * (share direction desired budget * separation direction desired) +
          45 / 10 ^ 13) := by
    refine mul_le_mul_of_nonneg_right ?_ (by linarith)
    rw [roundoff_eq] at hlong
    linarith
  rw [roundoff_eq] at *
  linarith

theorem le_norm_turn_of_narrow :
    1 - (154 / 10 ^ 4 * value budget ^ 2 + 5 / 10 ^ 7 * value budget + 2381 / 1000 * roundoff) ≤
      ‖(turn direction desired budget).real‖ := by
  have hmark := partway.le_norm_mark_of_narrow hnarrow
  obtain ⟨-, hlong, -⟩ := partway.turn_near hmark (by rw [roundoff_eq]; linarith)
  have hb := partway.value_nonneg
  refine le_trans ?_ hlong
  rw [roundoff_eq]
  linarith [sq_nonneg (value budget)]

/-- What a turn loses of the product of the lengths, apart from what the length of the old
direction gains. -/
theorem exists_loss_of_narrow :
    ∃ loss, loss = 5022 / 10 ^ 4 * value budget ^ 2 + 9 / 10 ^ 6 * value budget +
        (4 / 100 + 814 / 100 * share direction desired budget ^ 2) * roundoff ∧
      0 ≤ loss ∧ loss ≤ 2 / 10 ^ 5 ∧
      ‖(turn direction desired budget).real‖ * (‖direction.real‖ -
          share direction desired budget ^ 2 * (‖direction.real‖ - 1) - loss) ≤
        ⟪direction.real, (turn direction desired budget).real⟫ := by
  have hturned := partway.norm_mul_sq_separation_turn_le_of_narrow hnudge hnarrow
  have hinner := norm_mul_le_inner direction (turn direction desired budget)
  have hb := partway.value_nonneg
  have hsquare := mul_le_mul hnudge hnudge hb (by norm_num)
  have hsq' : share direction desired budget ^ 2 ≤ 1 :=
    pow_le_one₀ partway.share_nonneg partway.share_le_one
  refine ⟨_, rfl, ?_, ?_, ?_⟩
  · have hu := roundoff_pos.le
    positivity
  · rw [roundoff_eq]
    linarith
  · exact (mul_le_mul_of_nonneg_left (by linarith) (norm_nonneg _)).trans hinner

/-- A turn stays close to the old direction. -/
theorem le_inner_turn_of_narrow :
    1 - (518 / 1000 * value budget ^ 2 + 95 / 10 ^ 7 * value budget +
        (683 / 100 + 375 / 100 * share direction desired budget ^ 2) * roundoff) ≤
      ⟪direction.real, (turn direction desired budget).real⟫ := by
  obtain ⟨loss, hexact, hloss, hloss', hinner⟩ := partway.exists_loss_of_narrow hnudge hnarrow
  refine le_trans ?_ hinner
  have hlong := partway.le_norm_turn_of_narrow hnudge hnarrow
  have hb := partway.value_nonneg
  have hsq := sq_nonneg (share direction desired budget)
  have hsq' : share direction desired budget ^ 2 ≤ 1 :=
    pow_le_one₀ partway.share_nonneg partway.share_le_one
  have hshort := mul_le_mul_of_nonneg_right partway.unit.low (sub_nonneg.mpr hsq')
  have hrest : 0 ≤ 44 / 10 * roundoff * (1 - share direction desired budget ^ 2) + loss :=
    add_nonneg (mul_nonneg (by linarith [roundoff_pos]) (sub_nonneg.mpr hsq')) hloss
  have hrest' : 44 / 10 * roundoff * (1 - share direction desired budget ^ 2) + loss ≤ 1 := by
    rw [roundoff_eq]
    linarith
  have hturned := mul_le_mul_of_nonneg_left
    (show 1 - (44 / 10 * roundoff * (1 - share direction desired budget ^ 2) + loss) ≤
      ‖direction.real‖ - share direction desired budget ^ 2 * (‖direction.real‖ - 1) - loss by
      linarith)
    (norm_nonneg (turn direction desired budget).real)
  have hshortened := mul_le_mul_of_nonneg_right hlong (sub_nonneg.mpr hrest')
  have hboth := mul_nonneg (show 0 ≤ 154 / 10 ^ 4 * value budget ^ 2 + 5 / 10 ^ 7 * value budget +
    2381 / 1000 * roundoff by linarith [sq_nonneg (value budget), roundoff_pos]) hrest
  linarith [sq_nonneg (value budget), roundoff_pos, mul_nonneg hsq roundoff_pos.le]

/-- If both directions are long, then a turn stays closer to the old one. -/
theorem le_inner_turn_of_long
    (hproduct : 1 - 11 / 10 * roundoff ≤
      ‖direction.real‖ * ‖(turn direction desired budget).real‖) :
    1 - (518 / 1000 * value budget ^ 2 + 95 / 10 ^ 7 * value budget +
        (115 / 100 + 943 / 100 * share direction desired budget ^ 2) * roundoff) ≤
      ⟪direction.real, (turn direction desired budget).real⟫ := by
  obtain ⟨loss, hexact, hloss, -, hinner⟩ := partway.exists_loss_of_narrow hnudge hnarrow
  refine le_trans ?_ hinner
  have hlong := partway.le_norm_turn_of_narrow hnudge hnarrow
  have hhigh := (partway.turn_near (partway.le_norm_mark_of_narrow hnarrow)
    (by rw [roundoff_eq]; linarith)).1.high
  have hb := partway.value_nonneg
  have hsq := sq_nonneg (share direction desired budget)
  have hsq' : share direction desired budget ^ 2 ≤ 1 :=
    pow_le_one₀ partway.share_nonneg partway.share_le_one
  have hweighted := mul_le_mul_of_nonneg_right hproduct (sub_nonneg.mpr hsq')
  have hturned := mul_le_mul_of_nonneg_right hlong hsq
  have hlost := mul_le_mul_of_nonneg_right hhigh hloss
  have hgained := mul_le_of_le_one_left (show 0 ≤ 154 / 10 ^ 4 * value budget ^ 2 +
    5 / 10 ^ 7 * value budget by linarith [sq_nonneg (value budget)]) hsq'
  rw [roundoff_eq] at *
  linarith [sq_nonneg (value budget)]

theorem one_sub_dot_turn_le_of_narrow :
    1 - value (direction.dot (turn direction desired budget)) ≤ 518 / 1000 * value budget ^ 2 +
      95 / 10 ^ 7 * value budget +
        (888 / 100 + 425 / 100 * share direction desired budget ^ 2) * roundoff := by
  have hany := partway.le_inner_turn_of_narrow hnudge hnarrow
  have hunit := (partway.turn_near (partway.le_norm_mark_of_narrow hnarrow)
    (by rw [roundoff_eq]; linarith)).1
  have hb := partway.value_nonneg
  have hsquare := mul_le_mul hnudge hnudge hb (by norm_num)
  have hy := mul_nonneg (sq_nonneg (share direction desired budget)) roundoff_pos.le
  have hy' : share direction desired budget ^ 2 ≤ 1 :=
    pow_le_one₀ partway.share_nonneg partway.share_le_one
  have hpositive : 0 ≤ ⟪direction.real, (turn direction desired budget).real⟫ := by
    rw [roundoff_eq] at hany
    linarith
  rcases dot_cases partway.unit hunit hpositive with hlarge | hclose | ⟨hproduct, hclose⟩
  · linarith [roundoff_pos, sq_nonneg (value budget)]
  · linarith [roundoff_pos]
  · have hfar := partway.le_inner_turn_of_long hnudge hnarrow hproduct
    rw [roundoff_eq] at *
    linarith

theorem turn_le_of_narrow :
    value (angle direction (turn direction desired budget)) ≤ value budget + 1 / 1000 := by
  have hmark := partway.le_norm_mark_of_narrow hnarrow
  obtain ⟨hunit, -, -⟩ := partway.turn_near hmark (by rw [roundoff_eq]; linarith)
  have hdot := (abs_dot_sub_cos_le partway.unit hunit).1
  have hloss := partway.one_sub_dot_turn_le_of_narrow hnudge hnarrow
  have hshare := partway.share_mul_angle_le_mul
  have hleast := mul_le_mul_of_nonneg_left
    (le_angle_of_pos (abs_dot_sub_cos_le partway.unit partway.unit_desired).1 partway.angle_pos)
      partway.share_nonneg
  have hb := partway.value_nonneg
  have hτ := partway.share_nonneg
  have hτ' := partway.share_le_one
  rcases lt_or_ge (value budget) (42 / 10 ^ 6) with htiny | hmore
  · -- The budget is a small share of the least angle, so that the roundings come to less than nine.
    have hsmall : share direction desired budget ≤ 122 / 1000 := by linarith
    have hsquare := pow_le_pow_left₀ hτ hsmall 2
    have hbudget := pow_le_pow_left₀ hb htiny.le 2
    refine (angle_le_of_lt hdot ?_).trans (by linarith)
    rw [roundoff_eq] at *
    linarith
  · refine angle_le_add_of_short hdot hb hnudge ?_
    have hbudget := mul_le_mul_of_nonneg_left hnudge hb
    rw [roundoff_eq] at *
    rcases le_or_gt (share direction desired budget) (17 / 100) with hsmall | hlarge
    · have hsquare := pow_le_pow_left₀ hτ hsmall 2
      linarith
    · have hbetween := mul_nonneg (sub_nonneg.mpr hlarge.le) (sub_nonneg.mpr hτ')
      linarith

end Narrow

/-- A turn stays within a small budget up to a thousandth, however small the budget is. -/
theorem turn_le_of_nudge (hnudge : value budget ≤ 1 / 200) :
    value (angle direction (turn direction desired budget)) ≤ value budget + 1 / 1000 := by
  rcases le_or_gt (value (angle direction desired)) (1 / 5) with hnarrow | hwide
  · exact partway.turn_le_of_narrow hnudge hnarrow
  · exact partway.turn_le_of_wide hnudge hwide

/-- A gentle turn stays within its budget, up to a thousandth. -/
theorem turn_le_add (hgentle : Gentle direction desired budget) :
    value (angle direction (turn direction desired budget)) ≤ value budget + 1 / 1000 := by
  rcases le_or_gt (value budget) (1 / 200) with hnudge | hlarge
  · exact partway.turn_le_of_nudge hnudge
  · have hturn := partway.turn_le hgentle
    rwa [max_eq_left hlarge.le] at hturn

end Partway

end Volley.Flight
