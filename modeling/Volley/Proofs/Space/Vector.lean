import Mathlib
import Volley.Vec3
import Volley.Proofs.Number.Error

/-!
# Vectors of real numbers

A vector of finite numbers stands for a vector of real ones. Sums, multiples, inner products and
lengths are off by a few roundings, relative to the real ones.
-/

namespace Volley.Vec3

open Volley.Single
open scoped RealInnerProductSpace

abbrev Space :=
  EuclideanSpace ℝ (Fin 3)

structure Finite (v : Vec3) : Prop where
  x : v.x.isFinite = true
  y : v.y.isFinite = true
  z : v.z.isFinite = true

noncomputable def real (v : Vec3) : Space :=
  WithLp.toLp _ ![value v.x, value v.y, value v.z]

variable {v w a b : Vec3} {s : Float32}

theorem norm_sq_eq (v : Space) : ‖v‖ ^ 2 = v 0 ^ 2 + v 1 ^ 2 + v 2 ^ 2 := by
  rw [EuclideanSpace.norm_sq_eq, Fin.sum_univ_three]
  simp only [Real.norm_eq_abs, sq_abs]

theorem inner_eq (v w : Space) : ⟪v, w⟫ = v 0 * w 0 + v 1 * w 1 + v 2 * w 2 := by
  rw [PiLp.inner_apply, Fin.sum_univ_three]
  simp only [RCLike.inner_apply, conj_trivial, mul_comm]

@[simp] theorem real_zero_apply (v : Vec3) : v.real 0 = value v.x := rfl

@[simp] theorem real_one_apply (v : Vec3) : v.real 1 = value v.y := rfl

@[simp] theorem real_two_apply (v : Vec3) : v.real 2 = value v.z := rfl

/-! ## Errors of the coordinates -/

theorem abs_apply_le_norm (v : Space) (i : Fin 3) : |v i| ≤ ‖v‖ := by
  have := PiLp.norm_apply_le v i
  rwa [Real.norm_eq_abs] at this

theorem sum_abs_le (v : Space) : |v 0| + |v 1| + |v 2| ≤ 2 * ‖v‖ := by
  have hsq := norm_sq_eq v
  refine abs_le_of_sq_le_sq' ?_ (by positivity) |>.2
  nlinarith [sq_abs (v 0), sq_abs (v 1), sq_abs (v 2), sq_nonneg (|v 0| - |v 1|),
    sq_nonneg (|v 1| - |v 2|),
    sq_nonneg (|v 0| - |v 2|)]

/-- Errors relative to the coordinates are relative to the length. -/
theorem norm_sub_le_of_forall {v w : Space} {ε η : ℝ} (hε : 0 ≤ ε) (hη : 0 ≤ η)
    (h : ∀ i, |w i - v i| ≤ ε * |v i| + η) :
    ‖w - v‖ ≤ ε * ‖v‖ + 2 * η := by
  refine abs_le_of_sq_le_sq' ?_ (by positivity) |>.2
  have hsquare (i : Fin 3) : (w i - v i) ^ 2 ≤ (ε * |v i| + η) ^ 2 :=
    sq_le_sq' (abs_le.mp (h i)).1 (abs_le.mp (h i)).2
  have hsum := sum_abs_le v
  have hnorm := norm_sq_eq v
  calc ‖w - v‖ ^ 2 = (w 0 - v 0) ^ 2 + (w 1 - v 1) ^ 2 + (w 2 - v 2) ^ 2 := norm_sq_eq (w - v)
    _ ≤ (ε * |v 0| + η) ^ 2 + (ε * |v 1| + η) ^ 2 + (ε * |v 2| + η) ^ 2 :=
        add_le_add (add_le_add (hsquare 0) (hsquare 1)) (hsquare 2)
    _ = ε ^ 2 * ‖v‖ ^ 2 + 2 * ε * η * (|v 0| + |v 1| + |v 2|) + 3 * η ^ 2 := by
        rw [hnorm, ← sq_abs (v 0), ← sq_abs (v 1), ← sq_abs (v 2)]
        ring
    _ ≤ ε ^ 2 * ‖v‖ ^ 2 + 2 * ε * η * (2 * ‖v‖) + 4 * η ^ 2 := by
        have := mul_le_mul_of_nonneg_left hsum (show 0 ≤ 2 * ε * η by positivity)
        linarith [sq_nonneg η]
    _ = (ε * ‖v‖ + 2 * η) ^ 2 := by ring

theorem norm_sub_sub_le (h : (a - b).Finite) :
    ‖(a - b).real - (a.real - b.real)‖ ≤ roundoff * ‖a.real - b.real‖ := by
  have herror := norm_sub_le_of_forall (v := a.real - b.real) (w := (a - b).real) roundoff_pos.le
    le_rfl fun i => by
    rw [add_zero]
    match i with
    | 0 => exact abs_sub_sub_le h.x
    | 1 => exact abs_sub_sub_le h.y
    | 2 => exact abs_sub_sub_le h.z
  rwa [mul_zero, add_zero] at herror

theorem norm_add_sub_le (h : (a + b).Finite) :
    ‖(a + b).real - (a.real + b.real)‖ ≤ roundoff * ‖a.real + b.real‖ := by
  have herror := norm_sub_le_of_forall (v := a.real + b.real) (w := (a + b).real) roundoff_pos.le
    le_rfl fun i => by
    rw [add_zero]
    match i with
    | 0 => exact abs_add_sub_le h.x
    | 1 => exact abs_add_sub_le h.y
    | 2 => exact abs_add_sub_le h.z
  rwa [mul_zero, add_zero] at herror

/-- A vector whose coordinates are rounded from those of a real one. -/
structure RoundsTo (w : Vec3) (p : Space) : Prop where
  x : Rounds w.x (p 0)
  y : Rounds w.y (p 1)
  z : Rounds w.z (p 2)

section RoundsTo

variable {p : Space} (h : w.RoundsTo p)

include h

theorem RoundsTo.finite : w.Finite :=
  ⟨h.x.finite, h.y.finite, h.z.finite⟩

theorem RoundsTo.rounds (i : Fin 3) : ∃ c, value c = w.real i ∧ Rounds c (p i) := by
  match i with
  | 0 => exact ⟨w.x, rfl, h.x⟩
  | 1 => exact ⟨w.y, rfl, h.y⟩
  | 2 => exact ⟨w.z, rfl, h.z⟩

theorem RoundsTo.norm_sub_le : ‖w.real - p‖ ≤ roundoff * ‖p‖ + 2 * underflow := by
  refine norm_sub_le_of_forall roundoff_pos.le underflow_pos.le fun i => ?_
  obtain ⟨c, hc, hrounds⟩ := h.rounds i
  exact hc ▸ hrounds.abs_sub_le

/-- Coordinates of at most one lose half a rounding each, so that a vector of
length one is hardly shortened. -/
theorem RoundsTo.le_norm : 1 ≤ ‖w.real‖ ∨ ‖p‖ - 867 / 1000 * roundoff ≤ ‖w.real‖ := by
  by_cases hsmall : ∀ i, |p i| ≤ 1
  · have herror (i : Fin 3) : (w.real - p) i ^ 2 ≤ (roundoff / 2) ^ 2 := by
      obtain ⟨c, hc, hrounds⟩ := h.rounds i
      have hclose := hrounds.abs_sub_le_of_le_one (hsmall i)
      rw [hc] at hclose
      exact sq_le_sq' (abs_le.mp hclose).1 (abs_le.mp hclose).2
    have hdistance : ‖w.real - p‖ ≤ 867 / 1000 * roundoff := by
      have hpos := roundoff_pos
      refine abs_le_of_sq_le_sq' ?_ (by positivity) |>.2
      rw [norm_sq_eq]
      nlinarith [herror 0, herror 1, herror 2]
    have hreverse := norm_sub_norm_le p w.real
    rw [norm_sub_rev] at hreverse
    exact Or.inr (by linarith)
  · obtain ⟨i, hi⟩ := not_forall.mp hsmall
    obtain ⟨c, hc, hrounds⟩ := h.rounds i
    exact Or.inl ((hc ▸ hrounds.one_le_abs (not_le.mp hi).le).trans (abs_apply_le_norm w.real i))

end RoundsTo

theorem scale_roundsTo (h : (v.scale s).Finite) : (v.scale s).RoundsTo (value s • v.real) := by
  have hproduct {c : Float32} (hc : (c * s).isFinite = true) :
      Rounds (c * s) (value s * value c) := by
    obtain ⟨hleft, hright⟩ := finite_of_mul hc
    rw [mul_comm (value s)]
    exact (approximates_mul hleft hright).rounds hc
  exact ⟨hproduct h.x, hproduct h.y, hproduct h.z⟩

theorem finite_scale (hv : v.Finite) (hs : s.isFinite = true)
    (hsmall : ‖v.real‖ * |value s| ≤ 2 ^ 125) :
    (v.scale s).Finite := by
  have hproduct {c : Float32} (hc : c.isFinite = true) (hle : |value c| ≤ ‖v.real‖) :
      (c * s).isFinite = true := by
    refine ((approximates_mul hc hs).rounds_of_lt ?_).finite
    rw [abs_mul]
    exact ((mul_le_mul_of_nonneg_right hle (abs_nonneg _)).trans hsmall).trans_lt (by norm_num)
  exact ⟨hproduct hv.x (abs_apply_le_norm v.real 0), hproduct hv.y (abs_apply_le_norm v.real 1),
    hproduct hv.z (abs_apply_le_norm v.real 2)⟩

theorem finite_add (ha : a.Finite) (hb : b.Finite)
    (hsmall : ‖a.real + b.real‖ ≤ 2 ^ 125) : (a + b).Finite := by
  have hsum {c d : Float32} (hc : c.isFinite = true) (hd : d.isFinite = true)
      (hle : |value c + value d| ≤ ‖a.real + b.real‖) :
      (c + d).isFinite = true :=
    ((approximates_add hc hd).rounds_of_lt ((hle.trans hsmall).trans_lt (by norm_num))).finite
  exact ⟨hsum ha.x hb.x (abs_apply_le_norm (a.real + b.real) 0),
    hsum ha.y hb.y (abs_apply_le_norm (a.real + b.real) 1),
    hsum ha.z hb.z (abs_apply_le_norm (a.real + b.real) 2)⟩

theorem finite_sub (ha : a.Finite) (hb : b.Finite)
    (hsmall : ‖a.real - b.real‖ ≤ 2 ^ 125) : (a - b).Finite := by
  have hdifference {c d : Float32} (hc : c.isFinite = true) (hd : d.isFinite = true)
      (hle : |value c - value d| ≤ ‖a.real - b.real‖) : (c - d).isFinite = true :=
    ((approximates_sub hc hd).rounds_of_lt ((hle.trans hsmall).trans_lt (by norm_num))).finite
  exact ⟨hdifference ha.x hb.x (abs_apply_le_norm (a.real - b.real) 0),
    hdifference ha.y hb.y (abs_apply_le_norm (a.real - b.real) 1),
    hdifference ha.z hb.z (abs_apply_le_norm (a.real - b.real) 2)⟩

/-- A sum of two vectors that stand close to two others. -/
theorem add_close (ha : a.Finite) (hb : b.Finite) {p d : Space} {ε δ r : ℝ} (hp : ‖a.real - p‖ ≤ ε)
    (hd : ‖b.real - d‖ ≤ δ) (hsum : ‖p + d‖ + ε + δ ≤ r) (hr : r ≤ 2 ^ 125) :
    (a + b).Finite ∧ ‖(a + b).real - (p + d)‖ ≤ ε + δ + roundoff * r := by
  have hexact : ‖a.real + b.real - (p + d)‖ ≤ ε + δ := by
    rw [add_sub_add_comm]
    exact (norm_add_le _ _).trans (add_le_add hp hd)
  have hnorm : ‖a.real + b.real‖ ≤ r := by
    have hreverse := norm_sub_norm_le (a.real + b.real) (p + d)
    linarith
  have hfinite := finite_add ha hb (hnorm.trans hr)
  have hrounded := (norm_add_sub_le hfinite).trans (mul_le_mul_of_nonneg_left hnorm roundoff_pos.le)
  have htriangle := norm_sub_le_norm_sub_add_norm_sub (a + b).real (a.real + b.real) (p + d)
  exact ⟨hfinite, by linarith⟩

/-- A multiple of a vector that stands close to another, by a number that stands close to `r`. -/
theorem norm_scale_sub_smul_le (h : (v.scale s).Finite) {r : ℝ} (hr : 0 ≤ r) (d : Space) :
    ‖(v.scale s).real - r • d‖ ≤
      (roundoff * |value s| + |value s - r|) * ‖v.real‖ + r * ‖v.real - d‖ + 2 * underflow := by
  have hrounded := (scale_roundsTo h).norm_sub_le
  have hfactor : ‖value s • v.real - r • v.real‖ = |value s - r| * ‖v.real‖ := by
    rw [← sub_smul, norm_smul, Real.norm_eq_abs]
  have hvector : ‖r • v.real - r • d‖ = r * ‖v.real - d‖ := by
    rw [← smul_sub, norm_smul, Real.norm_of_nonneg hr]
  rw [norm_smul, Real.norm_eq_abs] at hrounded
  have htriangle := norm_sub_le_norm_sub_add_norm_sub (v.scale s).real (value s • v.real) (r • d)
  have htriangle' := norm_sub_le_norm_sub_add_norm_sub (value s • v.real) (r • v.real) (r • d)
  linarith

/-! ## Inner products -/

/-- Three products are added from the left, with a rounding for each operation. -/
theorem abs_sum_sub_le {a b c p q r s t : ℝ} (hp : |p - a| ≤ roundoff * |a| + underflow)
    (hq : |q - b| ≤ roundoff * |b| + underflow) (hr : |r - c| ≤ roundoff * |c| + underflow)
    (hs : |s - (p + q)| ≤ roundoff * |p + q|) (ht : |t - (s + r)| ≤ roundoff * |s + r|) :
    |t - (a + b + c)| ≤ 3001 / 1000 * roundoff * (|a| + |b| + |c|) + 4 * underflow := by
  have hsplit : t - (a + b + c) = (t - (s + r)) + (s - (p + q)) + (p - a) + (q - b) +
      (r - c) := by ring
  have htotal : |t - (a + b + c)| ≤ |t - (s + r)| + |s - (p + q)| + |p - a| + |q -
      b| + |r - c| := by
    rw [hsplit]
    refine (abs_add_le _ _).trans
      (add_le_add ((abs_add_le _ _).trans (add_le_add ((abs_add_le _ _).trans
      (add_le_add (abs_add_le _ _) le_rfl)) le_rfl)) le_rfl)
  have hp' := abs_sub_abs_le_abs_sub p a
  have hq' := abs_sub_abs_le_abs_sub q b
  have hr' := abs_sub_abs_le_abs_sub r c
  have hs' := abs_sub_abs_le_abs_sub s (p + q)
  have hpq := abs_add_le p q
  have hsr := abs_add_le s r
  have hu := underflow_pos
  have ha := abs_nonneg a
  have hb := abs_nonneg b
  have hc := abs_nonneg c
  rw [roundoff_eq] at *
  linarith

/-- The sizes of the products of an inner product. -/
theorem sum_abs_mul_le (v w : Space) : |v 0 * w 0| + |v 1 * w 1| + |v 2 * w 2| ≤ ‖v‖ * ‖w‖ := by
  have hv := norm_sq_eq v
  have hw := norm_sq_eq w
  refine abs_le_of_sq_le_sq' ?_ (by positivity) |>.2
  rw [mul_pow, hv, hw, abs_mul, abs_mul, abs_mul, ← sq_abs (v 0), ← sq_abs (v 1), ← sq_abs (v 2),
    ← sq_abs (w 0),
    ← sq_abs (w 1), ← sq_abs (w 2)]
  nlinarith [sq_nonneg (|v 0| * |w 1| - |v 1| * |w 0|), sq_nonneg (|v 0| * |w 2| - |v 2| * |w 0|),
    sq_nonneg (|v 1| * |w 2| - |v 2| * |w 1|)]

theorem finite_of_dot (h : (v.dot w).isFinite = true) : v.Finite ∧ w.Finite := by
  obtain ⟨hxy, hz⟩ := finite_of_add h
  obtain ⟨hx, hy⟩ := finite_of_add hxy
  obtain ⟨hvx, hwx⟩ := finite_of_mul hx
  obtain ⟨hvy, hwy⟩ := finite_of_mul hy
  obtain ⟨hvz, hwz⟩ := finite_of_mul hz
  exact ⟨⟨hvx, hvy, hvz⟩, ⟨hwx, hwy, hwz⟩⟩

theorem abs_dot_sub_le (h : (v.dot w).isFinite = true) :
    |value (v.dot w) - ⟪v.real, w.real⟫| ≤ 3001 / 1000 * roundoff * (‖v.real‖ * ‖w.real‖) +
      4 * underflow := by
  obtain ⟨hxy, hz⟩ := finite_of_add h
  obtain ⟨hx, hy⟩ := finite_of_add hxy
  rw [inner_eq]
  refine (abs_sum_sub_le (abs_mul_sub_le hx) (abs_mul_sub_le hy) (abs_mul_sub_le hz)
    (abs_add_sub_le hxy)
    (abs_add_sub_le h)).trans ?_
  have hsum := sum_abs_mul_le v.real w.real
  have := roundoff_pos
  gcongr
  exact hsum

/-- The sums of an inner product that is less than one are rounded by half as much as those beyond
one. Only vectors that are hardly too short may pass one on the way. -/
theorem le_dot (h : (v.dot w).isFinite = true) (hlow : -1 < value (v.dot w))
    (hhigh : value (v.dot w) < 1) (hproduct : ‖v.real‖ * ‖w.real‖ ≤ 3 / 2) :
    ⟪v.real, w.real⟫ - (‖v.real‖ * ‖w.real‖ + 3 / 2) * roundoff - 3 * underflow ≤ value (v.dot w) ∧
      (‖v.real‖ * ‖w.real‖ < 1 - 11 / 10 * roundoff →
        ⟪v.real, w.real⟫ - (‖v.real‖ * ‖w.real‖ + 1) * roundoff - 3 * underflow ≤
          value (v.dot w)) := by
  obtain ⟨hxy, hz⟩ := finite_of_add h
  obtain ⟨hx, hy⟩ := finite_of_add hxy
  have hfirst := (approximates_add hx hy).rounds hxy
  have hsecond := (approximates_add hxy hz).rounds h
  have hx' := abs_mul_sub_le hx
  have hy' := abs_mul_sub_le hy
  have hz' := abs_mul_sub_le hz
  have hsizes := sum_abs_mul_le v.real w.real
  have hinner := inner_eq v.real w.real
  simp only [real_zero_apply, real_one_apply, real_two_apply] at hsizes hinner
  rw [hinner]
  change -1 < value (v.x * w.x + v.y * w.y + v.z * w.z) at hlow
  change value (v.x * w.x + v.y * w.y + v.z * w.z) < 1 at hhigh
  change _ ≤ value (v.x * w.x + v.y * w.y + v.z * w.z) ∧
    (_ → _ ≤ value (v.x * w.x + v.y * w.y + v.z * w.z))
  have hlast : |value (v.x * w.x + v.y * w.y) + value (v.z * w.z)| ≤ 1 := by
    by_contra hlarge
    rcases le_abs'.mp (hsecond.one_le_abs (not_le.mp hlarge).le) with hbelow | habove <;> linarith
  have hlast' := abs_le.mp (hsecond.abs_sub_le_of_le_one hlast)
  have hsum := abs_add_le (value (v.x * w.x)) (value (v.y * w.y))
  have hxsize := abs_sub_abs_le_abs_sub (value (v.x * w.x)) (value v.x * value w.x)
  have hysize := abs_sub_abs_le_abs_sub (value (v.y * w.y)) (value v.y * value w.y)
  have hzsize := abs_nonneg (value v.z * value w.z)
  have hpartial : |value (v.x * w.x) + value (v.y * w.y)| ≤
      (1 + roundoff) * (‖v.real‖ * ‖w.real‖) + 2 * underflow := by
    linarith [mul_le_mul_of_nonneg_left hsizes roundoff_pos.le, mul_nonneg roundoff_pos.le hzsize]
  have hscaled := mul_le_mul_of_nonneg_left hsizes roundoff_pos.le
  have hxlow := (abs_le.mp hx').1
  have hylow := (abs_le.mp hy').1
  have hzlow := (abs_le.mp hz').1
  constructor
  · have hfirst' := (abs_le.mp (hfirst.abs_sub_le_of_le_two (hpartial.trans (by
      rw [roundoff_eq, underflow_eq]
      linarith)))).1
    linarith
  · intro hshort
    have hfirst' := (abs_le.mp (hfirst.abs_sub_le_of_le_one (hpartial.trans (by
      rw [roundoff_eq] at *
      rw [underflow_eq]
      linarith)))).1
    linarith

theorem finite_dot (hv : v.Finite) (hw : w.Finite)
    (hsmall : ‖v.real‖ * ‖w.real‖ ≤ 2 ^ 125) : (v.dot w).isFinite = true := by
  have hsum := sum_abs_mul_le v.real w.real
  simp only [real_zero_apply, real_one_apply, real_two_apply] at hsum
  have hx0 := abs_nonneg (value v.x * value w.x)
  have hy0 := abs_nonneg (value v.y * value w.y)
  have hz0 := abs_nonneg (value v.z * value w.z)
  have hx := (approximates_mul hv.x hw.x).rounds_of_lt (by linarith)
  have hy := (approximates_mul hv.y hw.y).rounds_of_lt (by linarith)
  have hz := (approximates_mul hv.z hw.z).rounds_of_lt (by linarith)
  have hx' := (abs_sub_abs_le_abs_sub _ _).trans hx.abs_sub_le
  have hy' := (abs_sub_abs_le_abs_sub _ _).trans hy.abs_sub_le
  have hz' := (abs_sub_abs_le_abs_sub _ _).trans hz.abs_sub_le
  have hxy := abs_add_le (value (v.x * w.x)) (value (v.y * w.y))
  rw [roundoff_eq, underflow_eq] at hx' hy' hz'
  have hfirst := (approximates_add hx.finite hy.finite).rounds_of_lt (by linarith)
  have hfirst' := (abs_sub_abs_le_abs_sub _ _).trans hfirst.abs_sub_le
  have hxyz := abs_add_le (value (v.x * w.x + v.y * w.y)) (value (v.z * w.z))
  rw [roundoff_eq, underflow_eq] at hfirst'
  exact ((approximates_add hfirst.finite hz.finite).rounds_of_lt (by linarith)).finite

/-! ## Lengths -/

theorem value_dot_self_nonneg (h : (v.dot v).isFinite = true) : 0 ≤ value (v.dot v) := by
  obtain ⟨hxy, hz⟩ := finite_of_add h
  obtain ⟨hx, hy⟩ := finite_of_add hxy
  obtain ⟨hvx, -⟩ := finite_of_mul hx
  obtain ⟨hvy, -⟩ := finite_of_mul hy
  obtain ⟨hvz, -⟩ := finite_of_mul hz
  have hx' := ((approximates_mul hvx hvx).rounds hx).nonneg (mul_self_nonneg _)
  have hy' := ((approximates_mul hvy hvy).rounds hy).nonneg (mul_self_nonneg _)
  have hz' := ((approximates_mul hvz hvz).rounds hz).nonneg (mul_self_nonneg _)
  have hxy' := ((approximates_add hx hy).rounds hxy).nonneg (add_nonneg hx' hy')
  exact ((approximates_add hxy hz).rounds h).nonneg (add_nonneg hxy' hz')

theorem abs_dot_self_sub_le (h : (v.dot v).isFinite = true) :
    |value (v.dot v) - ‖v.real‖ ^ 2| ≤ 3001 / 1000 * roundoff * ‖v.real‖ ^ 2 + 4 * underflow := by
  have herror := abs_dot_sub_le h
  rwa [real_inner_self_eq_norm_sq, ← sq] at herror

theorem abs_sqrt_sub_le_of_sq {q n c d : ℝ} (hn : 0 ≤ n) (hc : 0 ≤ c) (hc' : c ≤ 1) (hd : 0 ≤ d)
    (h : |q - n ^ 2| ≤ c * n ^ 2 + d ^ 2) : |√q - n| ≤ (c / 2 + c ^ 2 / 2) * n + d := by
  obtain ⟨hlow, hhigh⟩ := abs_le.mp h
  rw [abs_le]
  constructor
  · have hm : n * (1 - (c / 2 + c ^ 2 / 2)) - d ≤ √q := by
      rcases le_or_gt (n * (1 - (c / 2 + c ^ 2 / 2))) d with hsmall | hlarge
      · exact (sub_nonpos.mpr hsmall).trans (Real.sqrt_nonneg q)
      · refine Real.le_sqrt_of_sq_le ?_
        have hfactor : (1 - (c / 2 + c ^ 2 / 2)) ^ 2 ≤ 1 - c := by
          nlinarith [mul_nonneg hc hc, mul_nonneg (mul_nonneg hc hc) hc]
        have hmain : (n * (1 - (c / 2 + c ^ 2 / 2))) ^ 2 ≤ n ^ 2 * (1 - c) := by
          rw [mul_pow]
          exact mul_le_mul_of_nonneg_left hfactor (sq_nonneg n)
        nlinarith
    linarith
  · have hm : √q ≤ n * (1 + (c / 2 + c ^ 2 / 2)) + d := by
      rw [Real.sqrt_le_left (by positivity)]
      nlinarith [mul_nonneg hn hd, mul_nonneg (mul_nonneg hn hc) hd,
        mul_nonneg (sq_nonneg n) (sq_nonneg c),
        mul_nonneg (mul_nonneg hn (sq_nonneg c)) hd,
        mul_nonneg (sq_nonneg n) (sq_nonneg (c / 2 + c ^ 2 / 2))]
    linarith

theorem finite_length_iff : v.length.isFinite = true ↔ (v.dot v).isFinite = true :=
  ⟨finite_of_sqrt, fun h => (abs_sqrt_sub_le h (value_dot_self_nonneg h)).1⟩

theorem finite_length (hv : v.Finite) (hsmall : ‖v.real‖ ≤ 2 ^ 62) : v.length.isFinite = true := by
  refine finite_length_iff.mpr (finite_dot hv hv ?_)
  calc ‖v.real‖ * ‖v.real‖ ≤ 2 ^ 62 * 2 ^ 62 :=
    mul_le_mul hsmall hsmall (norm_nonneg _) (by positivity)
    _ ≤ 2 ^ 125 := by norm_num

theorem abs_length_sub_le (h : v.length.isFinite = true) :
    |value v.length - ‖v.real‖| ≤ 251 / 100 * roundoff * ‖v.real‖ + 1 / 2 ^ 72 := by
  have hdot := finite_length_iff.mp h
  have hroot := abs_sqrt_sub_le_of_sq (norm_nonneg v.real) (c := 3001 / 1000 * roundoff)
    (d := 1 / 2 ^ 74) (by rw [roundoff_eq]; positivity)
    (by rw [roundoff_eq]; norm_num) (by positivity)
      ((abs_dot_self_sub_le hdot).trans_eq (by rw [underflow_eq]; norm_num))
  have herror := (abs_sqrt_sub_le hdot (value_dot_self_nonneg hdot)).2
  have hn := norm_nonneg v.real
  have htriangle := abs_sub_le (value v.length) √(value (v.dot v)) ‖v.real‖
  have hbound := (abs_le.mp hroot).2
  rw [length] at *
  rw [roundoff_eq] at *
  linarith

/-- The length of a vector that is not next to zero is computed with a relative error only. -/
theorem abs_length_sub_le_of_le (h : v.length.isFinite = true) (hn : 1 / 2 ^ 56 ≤ ‖v.real‖) :
    |value v.length - ‖v.real‖| ≤ 251 / 100 * roundoff * ‖v.real‖ := by
  have hdot := finite_length_iff.mp h
  have hsmall : 4 * underflow ≤ 1 / 1000 * roundoff * ‖v.real‖ ^ 2 := by
    have hsq := pow_le_pow_left₀ (by positivity) hn 2
    rw [underflow_eq, roundoff_eq]
    norm_num at hsq ⊢
    linarith
  have hroot := abs_sqrt_sub_le_of_sq (norm_nonneg v.real) (c := 3002 / 1000 * roundoff) (d := 0)
    (by rw [roundoff_eq]; positivity)
    (by rw [roundoff_eq]; norm_num) le_rfl ((abs_dot_self_sub_le hdot).trans (by linarith))
  have herror := (abs_sqrt_sub_le hdot (value_dot_self_nonneg hdot)).2
  have hn := norm_nonneg v.real
  have htriangle := abs_sub_le (value v.length) √(value (v.dot v)) ‖v.real‖
  have hbound := (abs_le.mp hroot).2
  rw [length] at *
  rw [roundoff_eq] at *
  linarith

end Volley.Vec3
