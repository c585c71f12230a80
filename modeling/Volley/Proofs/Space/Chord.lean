import Mathlib
import Volley.Proofs.Space.Direction

/-!
# Chords

A turn mixes two directions along the straight way between them, not along the arc. So the mixture
covers the share of the angle that it is meant to cover only roughly: no more than it up to the
middle of the chord, and hardly more than it where the share is small.
-/

namespace Volley.Vec3

open InnerProductGeometry Real Volley.Single
open scoped RealInnerProductSpace

variable {v w x y : Space} {t β : ℝ}

/-! ## Angles -/

theorem norm_mul_sin_angle_le (v w : Space) : ‖w‖ * sin (angle v w) ≤ ‖v - w‖ := by
  refine abs_le_of_sq_le_sq' ?_ (norm_nonneg _) |>.2
  have hinner := cos_angle_mul_norm_mul_norm v w
  have hsquare := norm_sub_sq_real v w
  rw [mul_pow, sin_sq]
  nlinarith [sq_nonneg (‖v‖ - ‖w‖ * cos (angle v w))]

/-- Vectors that are close for their length point almost the same way. -/
theorem angle_le_of_norm_sub_le {ε : ℝ} (hw : w ≠ 0) (hε : ε < 1)
    (h : ‖v - w‖ ≤ ε * ‖w‖) : angle v w ≤ 2 * ε := by
  have hpos : 0 < ‖w‖ := norm_pos_iff.mpr hw
  have hinner : 0 ≤ ⟪v, w⟫ := by
    have hsquare := norm_sub_sq_real v w
    have hle : ‖v - w‖ ≤ ‖w‖ := h.trans (mul_le_of_le_one_left hpos.le hε.le)
    nlinarith [norm_nonneg (v - w), sq_nonneg ‖v‖]
  have hacute : angle v w ≤ π / 2 := by
    rw [angle, arccos_le_pi_div_two]
    positivity
  have hsin : sin (angle v w) ≤ ε := by
    have hle := (norm_mul_sin_angle_le v w).trans h
    rw [mul_comm] at hle
    exact le_of_mul_le_mul_right hle hpos
  have hchord := (mul_le_sin (angle_nonneg v w) hacute).trans hsin
  rw [div_mul_eq_mul_div, div_le_iff₀ pi_pos] at hchord
  have hnonneg : 0 ≤ ε := (sin_angle_nonneg v w).trans hsin
  nlinarith [pi_le_four]

theorem mul_min_sin_le_cos_sub_cos {z s : ℝ} (hz : 0 ≤ z) (hs : 0 ≤ s) (hzs : z + s ≤ π) :
    s * min (sin z) (sin (z + s)) ≤ cos z - cos (z + s) := by
  rcases hs.eq_or_lt with rfl | hpos
  · rw [zero_mul, add_zero, sub_self]
  · obtain ⟨ξ, hξ, hslope⟩ :=
      exists_deriv_eq_slope cos (lt_add_of_pos_right z hpos) continuous_cos.continuousOn
      differentiable_cos.differentiableOn
    have hmin := strictConcaveOn_sin_Icc.concaveOn.min_le_of_mem_Icc ⟨hz, by linarith⟩
      ⟨by linarith, hzs⟩
      (Set.mem_Icc_of_Ioo hξ)
    rw [Real.deriv_cos, add_sub_cancel_left, eq_div_iff hpos.ne'] at hslope
    nlinarith

/-- An angle whose cosine is hardly less than that of another is hardly greater. -/
theorem le_add_of_cos_sub_le {φ ψ s n : ℝ} (hφ : φ ≤ π) (hψ : 0 ≤ ψ) (hs : 0 ≤ s) (hψs : ψ + s ≤ π)
    (hcos : cos ψ - n ≤ cos φ) (hsin : n < s * min (sin ψ) (sin (ψ + s))) : φ ≤ ψ + s := by
  by_contra hlt
  have hfar := cos_lt_cos_of_nonneg_of_le_pi (by linarith) hφ (not_le.mp hlt)
  have hnear := mul_min_sin_le_cos_sub_cos hψ hs hψs
  linarith

/-! ## The mixture of two unit vectors -/

/-- The point at a fraction of the straight way between two vectors. -/
noncomputable def chord (x y : Space) (t : ℝ) : Space :=
  (1 - t) • x + t • y

theorem chord_comm (x y : Space) (t : ℝ) : chord x y t = chord y x (1 - t) := by
  rw [chord, chord, sub_sub_cancel, add_comm]

theorem sub_cube_le_sin {z : ℝ} (hz : 0 ≤ z) (hz' : z ≤ 1 / 4) : z - 67 / 400 * z ^ 3 ≤ sin z := by
  have hbound := (abs_le.mp (sin_bound (x := z) (by rw [abs_of_nonneg hz]; linarith))).1
  have hfifth : z ^ 5 ≤ z ^ 3 * (1 / 4) ^ 2 :=
    calc z ^ 5 = z ^ 3 * z ^ 2 := by ring
      _ ≤ z ^ 3 * (1 / 4) ^ 2 := by gcongr
  rw [abs_of_nonneg hz] at hbound
  linarith [pow_nonneg hz 3]

theorem sin_le_sub_cube {z : ℝ} (hz : 0 ≤ z) (hz' : z ≤ 1) : sin z ≤ z - 3 / 20 * z ^ 3 := by
  have hbound := (abs_le.mp (sin_bound (x := z) (by rwa [abs_of_nonneg hz]))).2
  have hfifth : z ^ 5 ≤ z ^ 3 := pow_le_pow_of_le_one hz hz' (by norm_num)
  rw [abs_of_nonneg hz] at hbound
  linarith [pow_nonneg hz 3]

/-- A line above the sine, which it comes next to at one tenth. -/
theorem sin_le_line {ρ : ℝ} (hρ : 0 ≤ ρ) (hρ' : ρ ≤ π) : sin ρ ≤ 9955 / 10000 * ρ + 3 / 10000 := by
  rcases le_or_gt ρ 1 with hle | hgt
  · have hcubic := sin_le_sub_cube hρ hle
    nlinarith [mul_nonneg (sq_nonneg (ρ - 1 / 10)) (show 0 ≤ ρ + 1 / 5 by linarith)]
  · have hone := sin_le_sub_cube zero_le_one le_rfl
    have hrest := (le_abs_self _).trans (abs_sin_sub_sin_le ρ 1)
    rw [abs_of_pos (sub_pos.mpr hgt)] at hrest
    linarith [pi_le_four]

/-- A small share of the sine is hardly more than the sine of the share. -/
theorem overshoot {τ ρ : ℝ} (hτ : 0 ≤ τ) (hτ' : τ ≤ 201 / 1000) (hρ : 0 ≤ ρ) (hρ' : ρ ≤ π) :
    τ * sin ρ ≤ (ρ + 1 / 2000) * sin (τ + 1 / 2000) := by
  have hsin : 9931 / 10000 * (τ + 1 / 2000) ≤ sin (τ + 1 / 2000) := by
    refine le_trans ?_ (sub_cube_le_sin (by linarith) (by linarith))
    have hsquare : (τ + 1 / 2000) ^ 2 ≤ (2015 / 10000) ^ 2 :=
      pow_le_pow_left₀ (by linarith) (by linarith) 2
    nlinarith
  calc τ * sin ρ ≤ τ * (9955 / 10000 * ρ + 3 / 10000) :=
    mul_le_mul_of_nonneg_left (sin_le_line hρ hρ') hτ
    _ ≤ (ρ + 1 / 2000) * (9931 / 10000 * (τ + 1 / 2000)) := by nlinarith [mul_nonneg hτ hρ]
    _ ≤ (ρ + 1 / 2000) * sin (τ + 1 / 2000) := mul_le_mul_of_nonneg_left hsin (by linarith)

section Unit

variable (hx : ‖x‖ = 1) (hy : ‖y‖ = 1)

include hx hy

theorem cos_angle_of_norm : cos (angle x y) = ⟪x, y⟫ := by
  rw [cos_angle, hx, hy, mul_one, div_one]

theorem norm_chord_sq (t : ℝ) :
    ‖chord x y t‖ ^ 2 = 1 - 2 * t * (1 - t) * (1 - cos (angle x y)) := by
  rw [chord, norm_add_sq_real, norm_smul, norm_smul, hx, hy, mul_one, mul_one, Real.norm_eq_abs,
    Real.norm_eq_abs, sq_abs,
    sq_abs, real_inner_smul_left, real_inner_smul_right, cos_angle_of_norm hx hy]
  ring

theorem norm_chord_le (ht : 0 ≤ t) (ht' : t ≤ 1) : ‖chord x y t‖ ≤ 1 := by
  refine (norm_add_le _ _).trans ?_
  rw [norm_smul, norm_smul, hx, hy, Real.norm_of_nonneg ht,
    Real.norm_of_nonneg (sub_nonneg.mpr ht')]
  linarith

theorem one_sub_le_norm_chord (ht : 0 ≤ t) : 1 - 2 * t ≤ ‖chord x y t‖ := by
  have hreverse := norm_sub_norm_le ((1 - t) • x) (-(t • y))
  rw [sub_neg_eq_add, norm_neg, norm_smul, norm_smul, hx, hy, mul_one, mul_one,
    Real.norm_of_nonneg ht] at hreverse
  have habs := le_abs_self (1 - t)
  rw [chord, ← Real.norm_eq_abs] at *
  linarith

theorem cos_half_le_norm_chord (t : ℝ) : cos (angle x y / 2) ≤ ‖chord x y t‖ := by
  refine abs_le_of_sq_le_sq' ?_ (norm_nonneg _) |>.2
  rw [cos_sq, mul_div_cancel₀ _ two_ne_zero, norm_chord_sq hx hy]
  nlinarith [sq_nonneg (1 - 2 * t), cos_le_one (angle x y)]

theorem norm_chord_mul_cos (t : ℝ) :
    ‖chord x y t‖ * cos (angle x (chord x y t)) = 1 - t + t * cos (angle x y) := by
  have hinner := cos_angle_mul_norm_mul_norm x (chord x y t)
  rw [hx, one_mul, mul_comm] at hinner
  rw [hinner, chord, inner_add_right, real_inner_smul_right, real_inner_smul_right,
    real_inner_self_eq_norm_sq, hx,
    cos_angle_of_norm hx hy]
  ring

/-- The mixture is no shorter than what remains of it along the first vector. -/
theorem le_norm_chord (t : ℝ) : 1 - t * (1 - cos (angle x y)) ≤ ‖chord x y t‖ := by
  have halong := norm_chord_mul_cos hx hy t
  have hpart := mul_le_of_le_one_right (norm_nonneg (chord x y t))
    (cos_le_one (angle x (chord x y t)))
  linarith

theorem norm_chord_mul_sin (ht : 0 ≤ t) :
    ‖chord x y t‖ * sin (angle x (chord x y t)) = t * sin (angle x y) := by
  have hleft : 0 ≤ ‖chord x y t‖ * sin (angle x (chord x y t)) :=
    mul_nonneg (norm_nonneg _) (sin_angle_nonneg _ _)
  have hright : 0 ≤ t * sin (angle x y) := mul_nonneg ht (sin_angle_nonneg _ _)
  have hcos := norm_chord_mul_cos hx hy t
  rw [← sq_eq_sq₀ hleft hright, mul_pow, mul_pow, sin_sq, mul_sub, mul_one, ← mul_pow, hcos,
    norm_chord_sq hx hy, sin_sq]
  ring

/-- The mixture is turned by no more than `β` if the part of it across that
direction points backward. -/
theorem angle_chord_le (ht : 0 ≤ t) (hβ : 0 < β) (hne : chord x y t ≠ 0)
    (h : t * sin (angle x y - β) ≤ (1 - t) * sin β) : angle x (chord x y t) ≤ β := by
  by_contra hlt
  have hsin := sin_pos_of_pos_of_lt_pi (sub_pos.mpr (not_le.mp hlt))
    (by linarith [angle_le_pi x (chord x y t)])
  have hacross : ‖chord x y t‖ * sin (angle x (chord x y t) - β) = t * sin (angle x y - β) -
      (1 - t) * sin β := by
    rw [sin_sub, sin_sub, mul_sub, ← mul_assoc, ← mul_assoc, norm_chord_mul_sin hx hy ht,
      norm_chord_mul_cos hx hy]
    ring
  have hpos := mul_pos (norm_pos_iff.mpr hne) hsin
  linarith

theorem angle_chord_eq_zero (h : t * angle x y = 0) : angle x (chord x y t) = 0 := by
  have hsame : chord x y t = x := by
    rcases mul_eq_zero.mp h with rfl | hzero
    · rw [chord, sub_zero, one_smul, zero_smul, add_zero]
    · have hone := cos_angle_of_norm hx hy
      rw [hzero, cos_zero] at hone
      rw [(inner_eq_one_iff_of_norm_eq_one hx hy).mp hone.symm, chord, ← add_smul,
        sub_add_cancel, one_smul]
  rw [hsame, angle_self (norm_ne_zero_iff.mp (hx.trans_ne one_ne_zero))]

/-- Up to the middle of the chord, the mixture is turned by no more than its share of the angle. -/
theorem angle_chord_le_mul (ht : 0 ≤ t) (hhalf : t ≤ 1 / 2) (hne : chord x y t ≠ 0) :
    angle x (chord x y t) ≤ t * angle x y := by
  rcases (mul_nonneg ht (angle_nonneg x y)).eq_or_lt with hzero | hpos
  · rw [angle_chord_eq_zero hx hy hzero.symm, ← hzero]
  · refine angle_chord_le hx hy ht hpos hne ?_
    have hrest : 0 < 1 - t := by linarith
    have hangle := angle_nonneg x y
    have hpi := angle_le_pi x y
    have hconcave := strictConcaveOn_sin_Icc.concaveOn.2 (x := (1 - t) * angle x y) (y := 0)
      ⟨by positivity, by nlinarith⟩ ⟨le_rfl, pi_pos.le⟩ (div_nonneg ht hrest.le)
      (sub_nonneg.mpr ((div_le_one hrest).mpr (by linarith))) (add_sub_cancel _ _)
    rw [smul_zero, add_zero, sin_zero, smul_zero, add_zero, smul_eq_mul, smul_eq_mul, ← mul_assoc,
      div_mul_cancel₀ _ hrest.ne', div_mul_eq_mul_div, div_le_iff₀ hrest] at hconcave
    rw [mul_comm (1 - t), show angle x y - t * angle x y = (1 - t) * angle x y by ring]
    exact hconcave

/-- Where its share of the angle is small, the mixture is hardly turned by more. -/
theorem angle_chord_le_add (ht : 0 ≤ t) (ht' : t ≤ 1) (hsmall : t * angle x y ≤ 201 / 1000)
    (hne : chord x y t ≠ 0) :
    angle x (chord x y t) ≤ t * angle x y + 1 / 2000 := by
  have hangle := angle_nonneg x y
  have hshare := mul_nonneg ht hangle
  refine angle_chord_le hx hy ht (by linarith) hne ?_
  rcases le_or_gt (angle x y) (t * angle x y + 1 / 2000) with hnear | hfar
  · have hbehind : sin (angle x y - (t * angle x y + 1 / 2000)) ≤ 0 :=
      sin_nonpos_of_nonpos_of_neg_pi_le (by linarith) (by linarith [pi_gt_three])
    have hahead : 0 ≤ sin (t * angle x y + 1 / 2000) :=
      sin_nonneg_of_nonneg_of_le_pi (by linarith) (by linarith [pi_gt_three])
    calc t * sin (angle x y - (t * angle x y + 1 / 2000)) ≤ 0 :=
      mul_nonpos_of_nonneg_of_nonpos ht hbehind
      _ ≤ (1 - t) * sin (t * angle x y + 1 / 2000) := mul_nonneg (sub_nonneg.mpr ht') hahead
  · have hover := overshoot hshare hsmall (sub_nonneg.mpr hfar.le) (by linarith [angle_le_pi x y])
    have hpos : 0 < angle x y := by linarith
    refine le_of_mul_le_mul_right ?_ hpos
    calc t * sin (angle x y - (t * angle x y + 1 / 2000)) * angle x y
        = t * angle x y * sin (angle x y - (t * angle x y + 1 / 2000)) := mul_right_comm _ _ _
      _ ≤ (angle x y - (t * angle x y + 1 / 2000) + 1 / 2000) * sin (t * angle x y + 1 / 2000) :=
        hover
      _ = (1 - t) * sin (t * angle x y + 1 / 2000) * angle x y := by ring

/-- On a short arc the mixture is turned by its share of the angle to six decimals. -/
theorem angle_chord_le_add_of_short (ht : 0 ≤ t) (ht' : t ≤ 1) (hshort : angle x y ≤ 1 / 90)
    (hne : chord x y t ≠ 0) :
    angle x (chord x y t) ≤ t * angle x y + 1 / 10 ^ 6 := by
  have hshare := mul_nonneg ht (angle_nonneg x y)
  have hshare' := mul_le_of_le_one_left (angle_nonneg x y) ht'
  refine angle_chord_le hx hy ht (by positivity) hne ?_
  generalize hβ : t * angle x y + 1 / 10 ^ 6 = β
  have hpos : 0 ≤ β := by rw [← hβ]; positivity
  have hsmall : β ≤ 12 / 1000 := by linarith
  have hcube : β ^ 3 ≤ (12 / 1000) ^ 3 := pow_le_pow_left₀ hpos hsmall 3
  have hsin := sub_cube_le_sin hpos (by linarith)
  have hrest : 0 ≤ 1 - t := sub_nonneg.mpr ht'
  have hahead : sin (angle x y - β) ≤ max (angle x y - β) 0 := by
    rcases le_total 0 (angle x y - β) with hfar | hnear
    · exact (sin_le hfar).trans (le_max_left _ _)
    · exact (sin_nonpos_of_nonpos_of_neg_pi_le hnear
        (by linarith [pi_gt_three, angle_nonneg x y])).trans (le_max_right _ _)
  calc t * sin (angle x y - β) ≤ t * max (angle x y - β) 0 := mul_le_mul_of_nonneg_left hahead ht
    _ ≤ (1 - t) * (β - 67 / 400 * β ^ 3) := by
        rw [mul_max_of_nonneg _ _ ht, mul_zero]
        refine max_le ?_ (mul_nonneg hrest ?_) <;> nlinarith
    _ ≤ (1 - t) * sin β := mul_le_mul_of_nonneg_left hsin hrest

/-- The mixture gains on the vector that it is turned toward. -/
theorem angle_chord_le_sub {g : ℝ} (ht : t ≤ 1) (hg : g < angle x y) (hne : chord x y t ≠ 0)
    (h : (1 - t) * sin g ≤ t * sin (angle x y - g)) : angle (chord x y t) y ≤ angle x y - g := by
  rw [chord_comm] at hne
  rw [angle_comm, chord_comm]
  refine angle_chord_le hy hx (sub_nonneg.mpr ht) (sub_pos.mpr hg) hne ?_
  rw [angle_comm y x, sub_sub_cancel, sub_sub_cancel]
  exact h

end Unit

/-! ## The mixture of two directions -/

/-- The real angle between two vectors. -/
noncomputable def separation (v w : Vec3) : ℝ :=
  InnerProductGeometry.angle v.real w.real

theorem separation_nonneg (v w : Vec3) : 0 ≤ separation v w :=
  InnerProductGeometry.angle_nonneg _ _

theorem separation_le_pi (v w : Vec3) : separation v w ≤ π :=
  InnerProductGeometry.angle_le_pi _ _

/-- The direction of a vector. -/
noncomputable def bearing (v : Vec3) : Space :=
  ‖v.real‖⁻¹ • v.real

section Bearing

variable {v w : Vec3}

theorem Unit.norm_pos (h : v.Unit) : 0 < ‖v.real‖ := by
  have hlow := (abs_le.mp h.norm).1
  rw [roundoff_eq] at hlow
  linarith

theorem Unit.norm_bearing (h : v.Unit) : ‖v.bearing‖ = 1 := by
  rw [bearing, norm_smul, norm_inv, norm_norm, inv_mul_cancel₀ h.norm_pos.ne']

theorem Unit.norm_sub_bearing_le (h : v.Unit) : ‖v.real - v.bearing‖ ≤ 5 * roundoff := by
  have hsplit : v.real - v.bearing = (‖v.real‖ - 1) • v.bearing := by
    rw [sub_smul, one_smul, bearing, smul_inv_smul₀ h.norm_pos.ne']
  rw [hsplit, norm_smul, h.norm_bearing, mul_one]
  exact h.norm

theorem Unit.angle_bearing_left (h : v.Unit) (w : Space) :
    InnerProductGeometry.angle v.bearing w = InnerProductGeometry.angle v.real w :=
  InnerProductGeometry.angle_smul_left_of_pos _ _ (inv_pos.mpr h.norm_pos)

theorem Unit.angle_bearing (hv : v.Unit) (hw : w.Unit) :
    InnerProductGeometry.angle v.bearing w.bearing = separation v w := by
  rw [hv.angle_bearing_left, bearing,
    InnerProductGeometry.angle_smul_right_of_pos _ _ (inv_pos.mpr hw.norm_pos), separation]

/-- Multiplying a direction by a factor of at most one rounds its length, the
factor and every coordinate. -/
theorem Unit.scale_spec (h : v.Unit) {s : Float32} (hs : s.isFinite = true) {r : ℝ} (hr : 0 ≤ r)
    (hr' : r ≤ 1) (herror : |value s - r| ≤ roundoff * r) :
    (v.scale s).Finite ∧ ‖(v.scale s).real - r • v.bearing‖ ≤ 71 / 10 * roundoff * r +
      2 * underflow := by
  have hnorm := (abs_le.mp h.norm).2
  have hvalue : |value s| ≤ (1 + roundoff) * r := by
    have hreverse := abs_sub_abs_le_abs_sub (value s) r
    rw [abs_of_nonneg hr] at hreverse
    linarith
  have hlength : |value s| * ‖v.real‖ ≤ 1001 / 1000 * r := by
    refine (mul_le_mul hvalue (sub_le_iff_le_add'.mp hnorm) (norm_nonneg _)
      (mul_nonneg (by linarith [roundoff_pos]) hr)).trans ?_
    rw [roundoff_eq]
    linarith
  have hscaled := finite_scale h.finite hs (by linarith)
  have hclose := norm_scale_sub_smul_le hscaled hr v.bearing
  have hfactor := mul_le_mul herror (sub_le_iff_le_add'.mp hnorm) (norm_nonneg _)
    (mul_nonneg roundoff_pos.le hr)
  have hbearing := mul_le_mul_of_nonneg_left h.norm_sub_bearing_le hr
  refine ⟨hscaled, ?_⟩
  rw [roundoff_eq] at *
  linarith

/-- A blend of two directions is the point of the chord between them, up to a few roundings. -/
theorem Unit.blend_spec (hv : v.Unit) (hw : w.Unit) {t : Float32} (ht : t.isFinite = true)
    (hlow : 0 ≤ value t) (hhigh : value t ≤ 1) :
    (v.blend w t).Finite ∧ ‖(v.blend w t).real - chord v.bearing w.bearing (value t)‖ ≤
      9 * roundoff := by
  have hrest : (1 - t).isFinite = true :=
    ((approximates_sub rfl ht).rounds_of_lt (by
      rw [value_one, abs_of_nonneg (by linarith)]
      linarith)).finite
  have hrest' := abs_sub_sub_le hrest
  rw [value_one, abs_of_nonneg (sub_nonneg.mpr hhigh)] at hrest'
  obtain ⟨hleft, herror⟩ := hv.scale_spec hrest (sub_nonneg.mpr hhigh) (by linarith) hrest'
  obtain ⟨hright, herror'⟩ := hw.scale_spec ht hlow hhigh (by
    rw [sub_self, abs_zero]
    exact mul_nonneg roundoff_pos.le hlow)
  have hnorm := norm_chord_le hv.norm_bearing hw.norm_bearing hlow hhigh
  obtain ⟨hfinite, hclose⟩ := add_close (r := 11 / 10) hleft hright herror herror' (by
    rw [← chord, roundoff_eq, underflow_eq]
    linarith) (by norm_num)
  refine ⟨hfinite, hclose.trans ?_⟩
  rw [roundoff_eq, underflow_eq]
  linarith

/-- A vector whose squared length is not next to zero is normalized to a
direction that points the same way. -/
theorem normalize?_angle (hdot : (v.dot v).isFinite = true) (hlow : 1 / 2 ^ 100 ≤ value (v.dot v)) :
    ∃ direction, v.normalize? = some direction ∧ direction.Unit ∧
      angle direction.real v.real ≤ 6 * roundoff := by
  obtain ⟨direction, hnormalize, hunit, ρ, hρ, hscaled⟩ := normalize?_spec hdot hlow
  have hlength : 1 - 7 * roundoff ≤ ‖ρ • v.real‖ := by
    have hnorm := (abs_le.mp hunit.norm).1
    have hreverse := norm_sub_norm_le direction.real (ρ • v.real)
    linarith
  have hangle : angle direction.real (ρ • v.real) ≤ 2 * (3 * roundoff) := by
    rw [roundoff_eq] at *
    exact angle_le_of_norm_sub_le (norm_pos_iff.mp (by linarith)) (by norm_num) (by linarith)
  rw [angle_smul_right_of_pos _ _ hρ] at hangle
  exact ⟨direction, hnormalize, hunit, by linarith⟩

end Bearing

end Volley.Vec3
