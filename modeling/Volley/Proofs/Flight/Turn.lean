import Mathlib
import Volley.Proofs.Number.Arccos
import Volley.Proofs.Space.Chord
import Volley.Proofs.Flight.Unit

/-!
# Turns

A turn measures the angle between two directions and mixes them in the proportion of its budget to
the angle. The measured angle is the real one up to roundings, which weigh more next to zero and to
half a turn, and the new direction points along the chord of both.
-/

namespace Volley

open Single Real Float.Model Float.Model.UnpackedFloat
open scoped RealInnerProductSpace

theorem abs_clamp_sub_le {m q : ℝ} (hq : |q| ≤ 1) : |min (max m (-1)) 1 - q| ≤ |m - q| := by
  obtain ⟨hlow, hhigh⟩ := abs_le.mp hq
  calc |min (max m (-1)) 1 - q| = |min (max m (-1)) 1 - min (max q (-1)) 1| := by
        rw [max_eq_left hlow, min_eq_left hhigh]
    _ ≤ |max m (-1) - max q (-1)| :=
      (abs_min_sub_min_le_max _ _ _ _).trans
        (by rw [sub_self, abs_zero, max_eq_left (abs_nonneg _)])
    _ ≤ |m - q| := abs_max_sub_max_le_abs _ _ _

namespace Vec3

/-- A vector that is a point of the unit ball up to a few roundings, and not next to the center, is
normalized to a direction that points the same way. -/
theorem normalized_spec {v : Vec3} (hfinite : v.Finite) {c : Space} (hlow : 1 / 80 ≤ ‖c‖)
    (hhigh : ‖c‖ ≤ 1) (hclose : ‖v.real - c‖ ≤ 9 * roundoff) :
    ¬v.Faint ∧ (v.normalize?.getD forward).Unit ∧
      InnerProductGeometry.angle (v.normalize?.getD forward).real c ≤ 1 / 11000 := by
  have hreverse := abs_le.mp ((abs_norm_sub_norm_le _ _).trans hclose)
  have hdot := finite_dot hfinite hfinite (by
    have hnorm : ‖v.real‖ ≤ 2 := by
      have := hreverse.2
      rw [roundoff_eq] at this
      linarith
    nlinarith [norm_nonneg v.real])
  have hsquare : 1 / 2 ^ 100 ≤ value (v.dot v) := by
    have herror := (abs_le.mp (abs_dot_self_sub_le hdot)).1
    have hnorm : 1 / 100 ≤ ‖v.real‖ := by
      have := hreverse.1
      rw [roundoff_eq] at this
      linarith
    have hpow := pow_le_pow_left₀ (by norm_num) hnorm 2
    rw [roundoff_eq, underflow_eq] at herror
    norm_num at herror hpow ⊢
    linarith
  obtain ⟨direction, hnormalize, hunit, hnormalized⟩ := normalize?_angle hdot hsquare
  rw [hnormalize, Option.getD_some]
  refine ⟨fun hfaint => absurd hfaint.small (not_lt.mpr hsquare), hunit, ?_⟩
  have hc : c ≠ 0 := norm_pos_iff.mp (by linarith)
  have hmixed : InnerProductGeometry.angle v.real c ≤ 2 * (720 * roundoff) := by
    refine angle_le_of_norm_sub_le hc ?_ (hclose.trans ?_)
    · rw [roundoff_eq]
      norm_num
    · rw [roundoff_eq]
      linarith
  have htriangle := InnerProductGeometry.angle_le_angle_add_angle direction.real v.real c
  rw [roundoff_eq] at hnormalized hmixed
  linarith

end Vec3

namespace Flight

open Vec3 (separation)

variable {direction desired : Vec3} {budget : Float32} {b : ℝ}

theorem sin_le_sin_of_le_pi_sub {c z : ℝ} (hc : 0 ≤ c) (hz : c ≤ z)
    (hz' : z ≤ π - c) : sin c ≤ sin z := by
  have hconcave := strictConcaveOn_sin_Icc.concaveOn.min_le_of_mem_Icc (x := c)
    (y := π - c) (z := z)
    ⟨hc, by linarith⟩ ⟨by linarith, by linarith⟩ ⟨hz, hz'⟩
  rwa [sin_pi_sub, min_self] at hconcave

/-- Away from zero and from half a turn, the sine keeps away from zero. -/
theorem le_sin {z : ℝ} (hz : 1 / 200 ≤ z) (hz' : z ≤ 3136 / 1000) : 49 / 10000 ≤ sin z := by
  have hend : 49 / 10000 ≤ sin (1 / 200) :=
    (by norm_num : (49 / 10000 : ℝ) ≤ 1 / 200 - 67 / 400 * (1 / 200) ^ 3).trans
    (Vec3.sub_cube_le_sin (by norm_num) (by norm_num))
  exact hend.trans (sin_le_sin_of_le_pi_sub (by norm_num) hz (by linarith [pi_gt_d4]))

/-- Angles whose cosines are the same up to the error of a measured one are the same up to the fifth
part of a thousandth, away from zero and from half a turn. -/
theorem le_add_of_abs_cos_sub_le {φ χ : ℝ} (hφ : φ ≤ π) (hχ : 0 ≤ χ) (hb : 1 / 200 ≤ b)
    (hb' : b ≤ 3135 / 1000) (hle : χ ≤ b)
    (hcos : |cos φ - cos χ| ≤ 14 * roundoff) : φ ≤ b + 1 / 5500 := by
  have hpi := pi_gt_d4
  refine Vec3.le_add_of_cos_sub_le (n := 14 * roundoff) hφ (by linarith) (by norm_num)
    (by linarith) ?_ ?_
  · have hmono := cos_le_cos_of_nonneg_of_le_pi hχ (by linarith) hle
    have hlow := (abs_le.mp hcos).1
    linarith
  · have hmin := le_min (le_sin hb (by linarith))
      (le_sin (z := b + 1 / 5500) (by linarith) (by linarith))
    rw [roundoff_eq]
    linarith

theorem clamp_spec {x : Float32} (hx : x.isFinite = true) :
    (clamp x (-1) 1).isFinite = true ∧ value (clamp x (-1) 1) = min (max (value x) (-1)) 1 ∧
      |value (clamp x (-1) 1)| ≤ 1 := by
  obtain ⟨hclamp, hvalue⟩ := value_clamp hx (show (-1 : Float32).isFinite = true from rfl)
    (show (1 : Float32).isFinite = true from rfl)
  rw [value_neg_one, value_one] at hvalue
  refine ⟨hclamp, hvalue, ?_⟩
  rw [hvalue, abs_le]
  exact ⟨le_min (le_max_right _ _) (by norm_num), min_le_right _ _⟩

section Measured

variable (hdirection : direction.Unit) (hdesired : desired.Unit)

include hdirection hdesired

theorem abs_dot_sub_cos_le : (direction.dot desired).isFinite = true ∧
    |value (direction.dot desired) - cos (separation direction desired)| ≤ 14 * roundoff := by
  obtain ⟨hlow, hhigh⟩ := abs_le.mp hdirection.norm
  obtain ⟨hlow', hhigh'⟩ := abs_le.mp hdesired.norm
  have hproduct : |‖direction.real‖ * ‖desired.real‖ - 1| ≤ 101 / 10 * roundoff := by
    rw [abs_le]
    rw [roundoff_eq] at *
    constructor <;> nlinarith
  have hfinite := Vec3.finite_dot hdirection.finite hdesired.finite (by
    have := (abs_le.mp hproduct).2
    rw [roundoff_eq] at this
    linarith)
  have herror := Vec3.abs_dot_sub_le hfinite
  have hinner := InnerProductGeometry.cos_angle_mul_norm_mul_norm direction.real desired.real
  have hscaled : |⟪direction.real, desired.real⟫ - cos (separation direction desired)| ≤
      101 / 10 * roundoff := by
    rw [← hinner, separation, ← mul_sub_one, abs_mul]
    exact (mul_le_of_le_one_left (abs_nonneg _) (abs_cos_le_one _)).trans hproduct
  refine ⟨hfinite, ?_⟩
  have htriangle := abs_sub_le (value (direction.dot desired)) ⟪direction.real, desired.real⟫
    (cos (separation direction desired))
  have hnorm := (abs_le.mp hproduct).2
  rw [roundoff_eq] at *
  rw [underflow_eq] at herror
  linarith

/-- The measured angle has the cosine of the real one, up to a few roundings. -/
theorem angle_spec : (angle direction desired).isFinite = true ∧ ∃ θ, 0 ≤ θ ∧ θ ≤ π ∧
    |value (angle direction desired) - θ| ≤ 4 * roundoff ∧
    |cos θ - cos (separation direction desired)| ≤ 14 * roundoff := by
  obtain ⟨hdot, herror⟩ := abs_dot_sub_cos_le hdirection hdesired
  obtain ⟨hclamp, hvalue, hone⟩ := clamp_spec hdot
  obtain ⟨hfinite, harccos⟩ := arccos_accurate hclamp hone
  refine ⟨hfinite, _, arccos_nonneg _, arccos_le_pi _,
    harccos.trans_eq (by rw [roundoff_eq]; norm_num), ?_⟩
  obtain ⟨hlow, hhigh⟩ := abs_le.mp hone
  rw [cos_arccos hlow hhigh, hvalue]
  exact (abs_clamp_sub_le (abs_cos_le_one _)).trans herror

theorem angle_le_add (hb : 1 / 200 ≤ b) (hb' : b ≤ 3135 / 1000)
    (h : separation direction desired ≤ b) :
    value (angle direction desired) ≤ b + 1 / 5000 := by
  obtain ⟨-, θ, hθ, hθ', herror, hcos⟩ := angle_spec hdirection hdesired
  have hclose := le_add_of_abs_cos_sub_le hθ' (Vec3.separation_nonneg _ _) hb hb' h hcos
  have hhigh := (abs_le.mp herror).2
  rw [roundoff_eq] at hhigh
  linarith

theorem separation_le_add (hb : 1 / 200 ≤ b) (hb' : b ≤ 3134 / 1000)
    (h : value (angle direction desired) ≤ b) :
    separation direction desired ≤ b + 1 / 5000 := by
  obtain ⟨-, θ, hθ, hθ', herror, hcos⟩ := angle_spec hdirection hdesired
  have hlow := (abs_le.mp herror).1
  rw [abs_sub_comm] at hcos
  have hclose := le_add_of_abs_cos_sub_le (b := b + 4 * roundoff) (Vec3.separation_le_pi _ _) hθ
    (by rw [roundoff_eq]; linarith) (by rw [roundoff_eq]; linarith) (by linarith) hcos
  rw [roundoff_eq] at hclose
  linarith

end Measured

/-- The measured angle is no greater than one whose cosine is no greater, up to a few roundings. -/
theorem angle_le_of_cos_le (hdot : (direction.dot desired).isFinite = true) {c : ℝ} (hc : 0 ≤ c)
    (hc' : c ≤ π) (h : cos c ≤ value (direction.dot desired)) :
    value (angle direction desired) ≤ c + 4 * roundoff := by
  obtain ⟨hclamp, hvalue, hone⟩ := clamp_spec hdot
  have hcos : cos c ≤ value (clamp (direction.dot desired) (-1) 1) := by
    rw [hvalue]
    exact le_min (h.trans (le_max_left _ _)) (cos_le_one c)
  have harccos := arccos_le_arccos hcos
  rw [arccos_cos hc hc'] at harccos
  have hhigh := (abs_le.mp (arccos_accurate hclamp hone).2).2
  rw [angle, roundoff_eq]
  linarith

/-- An inner product below one is short of it by a whole number of roundings, and eight of
them are less than a thousandth. -/
theorem angle_le_of_lt (hdot : (direction.dot desired).isFinite = true)
    (h : 1 - 9 * roundoff < value (direction.dot desired)) :
    value (angle direction desired) ≤ 979 / 10 ^ 6 := by
  have hcos : cos (978 / 10 ^ 6) ≤ 1 - 8 * roundoff := by
    have hbound := (abs_le.mp (cos_bound (x := 978 / 10 ^ 6) (by norm_num [abs_of_pos]))).2
    rw [roundoff_eq]
    norm_num [abs_of_pos] at hbound ⊢
    linarith
  have height : 1 - 8 * roundoff ≤ value (direction.dot desired) := by
    obtain ⟨n, hn⟩ := exists_multiple_of_ge (x := direction.dot desired) 125 (by
      rw [roundoff_eq] at h
      norm_num
      linarith)
    norm_num at hn
    have hwhole : 2 ^ 24 - 9 < n := by
      rw [hn, roundoff_eq] at h
      have : (2 ^ 24 - 9 : ℝ) < n := by linarith
      exact_mod_cast this
    have hnext : (2 ^ 24 - 8 : ℝ) ≤ n := by exact_mod_cast hwhole
    rw [hn, roundoff_eq]
    linarith
  refine (angle_le_of_cos_le hdot (by norm_num) (by linarith [pi_gt_three])
    (hcos.trans height)).trans ?_
  rw [roundoff_eq]
  norm_num

/-- The direction to a point and itself measure less than a thousandth. -/
theorem angle_directionTo_self_le {start target : Vec3}
    (hlength : (target - start).length.isFinite = true) :
    value (angle (start.directionTo target) (start.directionTo target)) ≤ 979 / 10 ^ 6 := by
  have hunit := Vec3.directionTo_unit hlength
  have hlow := Vec3.directionTo_low hlength
  have hhigh := hunit.high
  generalize start.directionTo target = direction at *
  have hdot := (abs_dot_sub_cos_le hunit hunit).1
  refine angle_le_of_lt hdot ?_
  rcases lt_or_ge (value (direction.dot direction)) 1 with hlt | hge
  · have hsquare : ‖direction.real‖ * ‖direction.real‖ ≤ 3 / 2 := by
      rw [roundoff_eq] at hhigh
      nlinarith [norm_nonneg direction.real]
    obtain ⟨hany, hshort⟩ := Vec3.le_dot hdot
      (by linarith [Vec3.value_dot_self_nonneg hdot]) hlt hsquare
    rw [real_inner_self_eq_norm_mul_norm] at hany hshort
    have hnorm : 1 - 6781 / 1000 * roundoff ≤ ‖direction.real‖ * ‖direction.real‖ := by
      rw [roundoff_eq] at *
      nlinarith
    rcases lt_or_ge (‖direction.real‖ * ‖direction.real‖) (1 - 11 / 10 * roundoff)
      with hbelow | habove
    · have hclose := hshort hbelow
      rw [roundoff_eq, underflow_eq] at *
      linarith
    · rw [roundoff_eq, underflow_eq] at *
      linarith
  · linarith [roundoff_pos]

/-! ## Turns by less than the whole angle -/

/-- A budget that leaves a turn next to its arc: it is small, or at most half of an angle
that is not all but half a turn. -/
inductive Gentle (direction desired : Vec3) (budget : Float32) : Prop
  | small (h : value budget ≤ 1 / 5)
  | half (h : 2 * value budget ≤ value (angle direction desired))
      (h' : value (angle direction desired) ≤ 3)

/-- The share of the angle that a turn covers, as it is rounded. -/
noncomputable def share (direction desired : Vec3) (budget : Float32) : ℝ :=
  value (budget / angle direction desired)

/-- The point of the chord that a turn normalizes, without roundings. -/
noncomputable def mark (direction desired : Vec3) (budget : Float32) : Vec3.Space :=
  Vec3.chord direction.bearing desired.bearing (share direction desired budget)

/-- A turn goes no farther than to its mark, and from there to where the roundings end. -/
theorem separation_turn_le_add (direction desired : Vec3) (budget : Float32) :
    separation direction (turn direction desired budget) ≤
      InnerProductGeometry.angle direction.real (mark direction desired budget) +
        InnerProductGeometry.angle (turn direction desired budget).real
          (mark direction desired budget) := by
  rw [InnerProductGeometry.angle_comm (turn direction desired budget).real]
  exact InnerProductGeometry.angle_le_angle_add_angle _ _ _

theorem le_norm_mark_of_angle_le (budget : Float32) (hdirection : direction.Unit)
    (hdesired : desired.Unit) (hangle : value (angle direction desired) ≤ 31 / 10) :
    1 / 80 ≤ ‖mark direction desired budget‖ := by
  have hseparation := separation_le_add hdirection hdesired (b := 31 / 10) (by norm_num)
    (by norm_num) hangle
  have hhalf := Vec3.cos_half_le_norm_chord hdirection.norm_bearing hdesired.norm_bearing
    (share direction desired budget)
  rw [hdirection.angle_bearing hdesired] at hhalf
  have hcos := one_sub_mul_le_cos (x := separation direction desired / 2)
    (div_nonneg (Vec3.separation_nonneg _ _) zero_le_two)
      (by linarith [Vec3.separation_le_pi direction desired])
  have hratio : 2 / π * (separation direction desired / 2) ≤ 79 / 80 := by
    rw [div_mul_eq_mul_div, div_le_iff₀ pi_pos]
    linarith [pi_gt_d4]
  exact le_trans (by linarith) hhalf

/-- A turn from one direction toward another by less than the whole angle. -/
structure Partway (direction desired : Vec3) (budget : Float32) : Prop where
  unit : direction.Unit
  unit_desired : desired.Unit
  nonneg : 0 ≤ budget
  beyond : ¬angle direction desired ≤ budget

namespace Partway

variable (partway : Partway direction desired budget)

include partway

theorem finite : budget.isFinite = true :=
  finite_of_le rfl (angle_spec partway.unit partway.unit_desired).1 partway.nonneg partway.beyond

theorem value_nonneg : 0 ≤ value budget := by
  have hnonneg := partway.nonneg
  rwa [le_iff_value rfl partway.finite, value_zero] at hnonneg

theorem value_lt : value budget < value (angle direction desired) := by
  have hnot := partway.beyond
  rwa [le_iff_value (angle_spec partway.unit partway.unit_desired).1 partway.finite, not_le] at hnot

theorem angle_pos : 0 < value (angle direction desired) :=
  partway.value_nonneg.trans_lt partway.value_lt

theorem quotient_nonneg : 0 ≤ value budget / value (angle direction desired) :=
  div_nonneg partway.value_nonneg partway.angle_pos.le

theorem quotient_le_one : value budget / value (angle direction desired) ≤ 1 :=
  (div_le_one partway.angle_pos).mpr partway.value_lt.le

theorem rounds_share :
    Rounds (budget / angle direction desired) (value budget / value (angle direction desired)) := by
  refine (approximates_div partway.finite (angle_spec partway.unit partway.unit_desired).1
    partway.angle_pos.ne').rounds_of_lt ?_
  rw [abs_of_nonneg partway.quotient_nonneg]
  linarith [partway.quotient_le_one]

theorem share_nonneg : 0 ≤ share direction desired budget :=
  partway.rounds_share.nonneg partway.quotient_nonneg

theorem share_le_one : share direction desired budget ≤ 1 :=
  partway.rounds_share.le_of_le (value_one ▸ representable_value 1) partway.quotient_le_one

theorem share_le_half (h : 2 * value budget ≤ value (angle direction desired)) :
    share direction desired budget ≤ 1 / 2 := by
  have hhalf : Representable (1 / 2) := ⟨1, 148, by norm_num, by norm_num⟩
  refine partway.rounds_share.le_of_le hhalf ?_
  rw [div_le_iff₀ partway.angle_pos]
  linarith

/-- The share of the measured angle is the budget, up to a rounding. -/
theorem abs_share_mul_angle_sub_le :
    |share direction desired budget * value (angle direction desired) - value budget| ≤
      roundoff * value budget + underflow * value (angle direction desired) := by
  have hpos := partway.angle_pos
  have herror := partway.rounds_share.abs_sub_le
  rw [abs_of_nonneg partway.quotient_nonneg] at herror
  calc |share direction desired budget * value (angle direction desired) - value budget|
      = |share direction desired budget - value budget / value (angle direction desired)| * value
        (angle direction desired) := by
        rw [← abs_of_pos hpos, ← abs_mul, abs_of_pos hpos, sub_mul, div_mul_cancel₀ _ hpos.ne']
    _ ≤ (roundoff * (value budget / value (angle direction desired)) + underflow) * value
        (angle direction desired) :=
        mul_le_mul_of_nonneg_right herror hpos.le
    _ = roundoff * value budget + underflow * value (angle direction desired) := by
        rw [add_mul, mul_assoc, div_mul_cancel₀ _ hpos.ne']

theorem angle_le : value (angle direction desired) ≤ π + 4 * roundoff := by
  obtain ⟨-, θ, -, hθ, hmeasured, -⟩ := angle_spec partway.unit partway.unit_desired
  linarith [(abs_le.mp hmeasured).2]

theorem share_mul_angle_le :
    share direction desired budget * value (angle direction desired) ≤
      value budget + 1 / 2 ^ 20 := by
  have hhigh := (abs_le.mp partway.abs_share_mul_angle_sub_le).2
  have hangle := partway.angle_le
  have hbudget := partway.value_lt
  rw [roundoff_eq, underflow_eq] at *
  linarith [pi_le_four]

theorem le_share_mul_angle :
    value budget - 1 / 2 ^ 20 ≤
      share direction desired budget * value (angle direction desired) := by
  have hlow := (abs_le.mp partway.abs_share_mul_angle_sub_le).1
  have hangle := partway.angle_le
  have hbudget := partway.value_lt
  rw [roundoff_eq, underflow_eq] at *
  linarith [pi_le_four]

theorem norm_mark_le_one : ‖mark direction desired budget‖ ≤ 1 :=
  Vec3.norm_chord_le partway.unit.norm_bearing partway.unit_desired.norm_bearing
    partway.share_nonneg partway.share_le_one

/-- The mixture that a turn normalizes is its mark, up to a few roundings. -/
theorem mixture_spec : (mixture direction desired budget).Finite ∧
    ‖(mixture direction desired budget).real - mark direction desired budget‖ ≤ 9 * roundoff :=
  partway.unit.blend_spec partway.unit_desired partway.rounds_share.finite partway.share_nonneg
    partway.share_le_one

/-- The turn points at its mark, if the chord does not come next to the center there. -/
theorem turn_spec (hlong : 1 / 80 ≤ ‖mark direction desired budget‖) :
    ¬(mixture direction desired budget).Faint ∧ (turn direction desired budget).Unit ∧
      InnerProductGeometry.angle (turn direction desired budget).real
        (mark direction desired budget) ≤ 1 / 11000 := by
  obtain ⟨hfinite, hclose⟩ := partway.mixture_spec
  rw [turn_of_not_le partway.beyond]
  exact Vec3.normalized_spec hfinite hlong partway.norm_mark_le_one hclose

/-- The share of the real angle is hardly more than the budget. -/
theorem share_mul_separation_le (hangle : value (angle direction desired) ≤ 3134 / 1000) :
    share direction desired budget * separation direction desired ≤
      max (value budget) (1 / 200) + 1 / 4900 := by
  rcases le_or_gt (value (angle direction desired)) (1 / 200) with hsmall | hlarge
  · have hclose := separation_le_add partway.unit partway.unit_desired le_rfl (by norm_num) hsmall
    calc share direction desired budget * separation direction desired ≤
          separation direction desired :=
          mul_le_of_le_one_left (Vec3.separation_nonneg _ _) partway.share_le_one
      _ ≤ 1 / 200 + 1 / 4900 := by linarith
      _ ≤ max (value budget) (1 / 200) + 1 / 4900 := by gcongr; exact le_max_right _ _
  · have hclose := separation_le_add partway.unit partway.unit_desired hlarge.le hangle le_rfl
    have hshare := partway.share_mul_angle_le
    have hone := partway.share_le_one
    calc share direction desired budget * separation direction desired
        ≤ share direction desired budget * (value (angle direction desired) + 1 / 5000) :=
          mul_le_mul_of_nonneg_left hclose partway.share_nonneg
      _ ≤ value budget + 1 / 4900 := by linarith
      _ ≤ max (value budget) (1 / 200) + 1 / 4900 := by gcongr; exact le_max_left _ _

/-- Next to half a turn the angle is measured less well, but a small budget is
a small share of it. -/
theorem share_mul_separation_le_of_small (hsmall : value budget ≤ 1 / 5)
    (hangle : 3134 / 1000 ≤ value (angle direction desired)) :
    share direction desired budget * separation direction desired ≤ value budget + 1 / 2000 := by
  have hshare := partway.share_mul_angle_le
  have hratio : share direction desired budget ≤ 639 / 10000 := by
    have hmul := mul_le_mul_of_nonneg_left hangle partway.share_nonneg
    linarith
  have hrest : separation direction desired ≤ value (angle direction desired) + 76 / 10000 := by
    linarith [Vec3.separation_le_pi direction desired, pi_lt_d4]
  have hmul := mul_le_mul_of_nonneg_left hrest partway.share_nonneg
  linarith

theorem le_norm_mark (hgentle : Gentle direction desired budget) :
    1 / 80 ≤ ‖mark direction desired budget‖ := by
  rcases le_or_gt (value (angle direction desired)) (31 / 10) with hangle | hwide
  · exact le_norm_mark_of_angle_le budget partway.unit partway.unit_desired hangle
  · cases hgentle with
    | half _ h => linarith
    | small h =>
        have hshare := partway.share_mul_angle_le
        have hmul := mul_le_mul_of_nonneg_left hwide.le partway.share_nonneg
        have hnorm := Vec3.one_sub_le_norm_chord partway.unit.norm_bearing
          partway.unit_desired.norm_bearing partway.share_nonneg
        rw [mark]
        linarith

theorem angle_mark_le_of_half (hgentle : Gentle direction desired budget)
    (hhalf : share direction desired budget ≤ 1 / 2) :
    InnerProductGeometry.angle direction.real (mark direction desired budget) ≤
      max (value budget) (1 / 200) + (1 / 4900 + 1 / 2000) := by
  have hne : mark direction desired budget ≠ 0 :=
    norm_pos_iff.mp (by linarith [partway.le_norm_mark hgentle])
  have hmark := Vec3.angle_chord_le_mul partway.unit.norm_bearing partway.unit_desired.norm_bearing
    partway.share_nonneg hhalf hne
  rw [partway.unit.angle_bearing partway.unit_desired, partway.unit.angle_bearing_left] at hmark
  refine hmark.trans ?_
  rcases le_or_gt (value (angle direction desired)) (3134 / 1000) with hangle | hwide
  · have hmul := partway.share_mul_separation_le hangle
    linarith
  · cases hgentle with
    | half _ h => linarith
    | small h =>
        have hmul := partway.share_mul_separation_le_of_small h hwide.le
        have hmax := le_max_left (value budget) (1 / 200)
        linarith

theorem angle_mark_le_of_small (hsmall : value budget ≤ 1 / 5)
    (hmost : 1 / 2 < share direction desired budget) :
    InnerProductGeometry.angle direction.real (mark direction desired budget) ≤
      max (value budget) (1 / 200) + (1 / 4900 + 1 / 2000) := by
  have hne : mark direction desired budget ≠ 0 :=
    norm_pos_iff.mp (by linarith [partway.le_norm_mark (.small hsmall)])
  have hangle : value (angle direction desired) ≤ 1 / 2 := by
    have hmul := mul_le_mul_of_nonneg_right hmost.le partway.angle_pos.le
    linarith [partway.share_mul_angle_le]
  have hmul := partway.share_mul_separation_le (by linarith)
  have hmax : max (value budget) (1 / 200) ≤ 1 / 5 := max_le hsmall (by norm_num)
  have hmark := Vec3.angle_chord_le_add partway.unit.norm_bearing partway.unit_desired.norm_bearing
    partway.share_nonneg
    partway.share_le_one (by rw [partway.unit.angle_bearing partway.unit_desired]; linarith) hne
  rw [partway.unit.angle_bearing partway.unit_desired, partway.unit.angle_bearing_left] at hmark
  refine hmark.trans ?_
  linarith

/-- A gentle turn carries its mark past the budget by less than a thousandth. -/
theorem angle_mark_le (hgentle : Gentle direction desired budget) :
    InnerProductGeometry.angle direction.real (mark direction desired budget) ≤
      max (value budget) (1 / 200) + (1 / 4900 + 1 / 2000) := by
  rcases le_or_gt (share direction desired budget) (1 / 2) with hhalf | hmost
  · exact partway.angle_mark_le_of_half hgentle hhalf
  · cases hgentle with
    | half h _ => exact absurd (partway.share_le_half h) (not_le.mpr hmost)
    | small h => exact partway.angle_mark_le_of_small h hmost

/-- A gentle turn stays within the budget up to a thousandth, as soon as the
budget is not next to nothing. -/
theorem turn_le (hgentle : Gentle direction desired budget) :
    value (angle direction (turn direction desired budget)) ≤
      max (value budget) (1 / 200) + 1 / 1000 := by
  obtain ⟨-, hunit, hclose⟩ := partway.turn_spec (partway.le_norm_mark hgentle)
  have hmark := partway.angle_mark_le hgentle
  have htriangle := separation_turn_le_add direction desired budget
  have hbound : max (value budget) (1 / 200) ≤ 3 / 2 := by
    refine max_le ?_ (by norm_num)
    cases hgentle with
    | small h => linarith
    | half h h' => linarith
  have hfloor := le_max_right (value budget) (1 / 200)
  have hmeasured := angle_le_add partway.unit hunit
    (b := max (value budget) (1 / 200) + (1 / 4900 + 1 / 2000) + 1 / 11000)
      (by linarith) (by linarith)
    (htriangle.trans (by linarith))
  linarith

end Partway

end Flight

end Volley
