import Mathlib
import Volley.Number.Angle

/-!
# The accuracy of fixed-point angles

Halving an angle and summing two terms of the power series determine its arc
tangent to nine decimals; every step of the fixed-point computation adds an error
of one or two units of the last place.
-/

namespace Volley

/-! ## Square roots of whole numbers -/

theorem sqrtFrom_eq (n guess : Nat) : sqrtFrom n guess = Nat.sqrt.iter n guess := by
  induction guess using Nat.strong_induction_on with
  | _ guess ih =>
      rw [sqrtFrom, Nat.sqrt.iter]
      split
      · rename_i hlt
        exact ih _ hlt
      · rfl

theorem natSqrt_eq (n : Nat) : natSqrt n = Nat.sqrt n := by
  rw [natSqrt, Nat.sqrt]
  split
  · rename_i hsmall
    obtain rfl | rfl : n = 0 ∨ n = 1 := by omega
    · rw [sqrtFrom_eq]
      decide +kernel
    · rw [sqrtFrom_eq]
      decide +kernel
  · exact sqrtFrom_eq _ _

theorem natSqrt_bounds (n : Nat) : (natSqrt n : ℝ) ≤ √n ∧ √n < natSqrt n + 1 := by
  rw [natSqrt_eq]
  refine ⟨Real.le_sqrt_of_sq_le ?_, (Real.sqrt_lt' (by positivity)).mpr ?_⟩
  · exact_mod_cast Nat.sqrt_le' n
  · exact_mod_cast Nat.lt_succ_sqrt' n

/-! ## The arc tangent of a real number -/

theorem abs_arctan_sub_arctan_le (a b : ℝ) : |Real.arctan a - Real.arctan b| ≤ |a - b| := by
  have hlipschitz : LipschitzWith 1 Real.arctan := by
    refine lipschitzWith_of_nnnorm_deriv_le Real.differentiable_arctan fun x => ?_
    rw [Real.deriv_arctan, ← NNReal.coe_le_coe, coe_nnnorm, NNReal.coe_one,
      Real.norm_of_nonneg (by positivity),
      div_le_one (by positivity)]
    exact le_add_of_nonneg_right (sq_nonneg x)
  have hdist := hlipschitz.dist_le_mul a b
  rwa [NNReal.coe_one, one_mul, Real.dist_eq, Real.dist_eq] at hdist

theorem two_mul_arctan_half (t : ℝ) : 2 * Real.arctan (t / (1 + √(1 + t ^ 2))) = Real.arctan t := by
  have hroot : √(1 + t ^ 2) ^ 2 = 1 + t ^ 2 := Real.sq_sqrt (by positivity)
  have habove : |t| < √(1 + t ^ 2) := by
    refine Real.lt_sqrt_of_sq_lt ?_
    rw [sq_abs]
    linarith
  generalize √(1 + t ^ 2) = s at hroot habove
  obtain ⟨hlow, hhigh⟩ := abs_lt.mp habove
  have hs : 0 < s := (abs_nonneg t).trans_lt habove
  rw [Real.two_mul_arctan]
  · congr 1
    have hdenominator : (1 + s) ^ 2 - t ^ 2 = 2 * (1 + s) := by linarith
    have hsum : (1 : ℝ) + s ≠ 0 := by positivity
    rw [div_pow, one_sub_div (pow_ne_zero 2 hsum), hdenominator]
    field_simp
  · rw [lt_div_iff₀ (by positivity)]
    linarith
  · rw [div_lt_one (by positivity)]
    linarith

/-- The angle whose half has the tangent `v`, from its cosine. -/
theorem two_mul_arctan_eq_arccos {v c : ℝ} (hv : 0 ≤ v)
    (hc : v ^ 2 * (1 + c) = 1 - c) : 2 * Real.arctan v = Real.arccos c := by
  have hcos : Real.cos (2 * Real.arctan v) = c := by
    rw [Real.cos_two_mul, Real.cos_sq_arctan]
    have : 1 + v ^ 2 ≠ 0 := by positivity
    field_simp
    linarith
  rw [← hcos, Real.arccos_cos]
  · have := Real.arctan_nonneg.mpr hv
    linarith
  · have := Real.arctan_lt_pi_div_two v
    linarith

theorem sub_cube_le_arctan {u : ℝ} (hu : 0 ≤ u) : u - u ^ 3 / 3 ≤ Real.arctan u := by
  have hderiv (x : ℝ) : HasDerivAt
      (fun x => Real.arctan x - (x - x ^ 3 / 3)) (x ^ 4 / (1 + x ^ 2)) x := by
    refine ((Real.hasDerivAt_arctan x).fun_sub
      ((hasDerivAt_id' x).fun_sub ((hasDerivAt_pow 3 x).div_const 3))).congr_deriv ?_
    field_simp
    ring
  have hmono := monotone_of_hasDerivAt_nonneg hderiv fun x => by positivity
  have hzero := hmono hu
  simp only [Real.arctan_zero] at hzero
  linarith

theorem arctan_le_add_fifth {u : ℝ} (hu : 0 ≤ u) : Real.arctan u ≤ u - u ^ 3 / 3 + u ^ 5 / 5 := by
  have hderiv (x : ℝ) : HasDerivAt
      (fun x => x - x ^ 3 / 3 + x ^ 5 / 5 - Real.arctan x) (x ^ 6 / (1 + x ^ 2)) x := by
    refine ((((hasDerivAt_id' x).fun_sub ((hasDerivAt_pow 3 x).div_const 3)).fun_add
      ((hasDerivAt_pow 5 x).div_const 5)).fun_sub (Real.hasDerivAt_arctan x)).congr_deriv ?_
    field_simp
    ring
  have hmono := monotone_of_hasDerivAt_nonneg hderiv fun x => by positivity
  have hzero := hmono hu
  simp only [Real.arctan_zero] at hzero
  linarith

/-! ## Fixed-point steps -/

namespace Angle

theorem natDiv_bounds (m : Nat) {n : Nat} (hn : 0 < n) :
    ((m / n : ℕ) : ℝ) ≤ m / n ∧ (m / n : ℝ) < (m / n : ℕ) + 1 := by
  refine ⟨Nat.cast_div_le, ?_⟩
  rw [div_lt_iff₀ (by exact_mod_cast hn)]
  exact_mod_cast Nat.lt_mul_of_div_lt (Nat.lt_succ_self _) hn

@[simp] theorem cast_one (bits : Nat) : (one bits : ℝ) = 2 ^ bits := by
  rw [one, Nat.one_shiftLeft]
  push_cast
  rfl

theorem one_pos (bits : Nat) : 0 < one bits := by
  rw [one, Nat.one_shiftLeft]
  positivity

variable (bits t : Nat)

theorem abs_halfTangent_sub_le :
    |(halfTangent bits t : ℝ) / 2 ^ bits - t / 2 ^ bits / (1 + √(1 + (t / 2 ^ bits) ^ 2))| ≤
      1 / 2 ^ bits := by
  obtain ⟨hlow, hhigh⟩ := natSqrt_bounds (one bits * one bits + t * t)
  obtain ⟨hfloor, hceil⟩ :=
    natDiv_bounds (t * one bits) (n := one bits + natSqrt (one bits * one bits + t * t))
    (Nat.add_pos_left (one_pos bits) _)
  rw [← halfTangent] at hfloor hceil
  generalize natSqrt (one bits * one bits + t * t) = s at hlow hhigh hfloor hceil
  generalize halfTangent bits t = u at hfloor hceil
  push_cast [cast_one] at hlow hhigh hfloor hceil
  have hO : (0 : ℝ) < 2 ^ bits := by positivity
  generalize (2 : ℝ) ^ bits = O at hO hlow hhigh hfloor hceil
  have ht : (0 : ℝ) ≤ t := Nat.cast_nonneg t
  have hs : (0 : ℝ) ≤ s := Nat.cast_nonneg s
  have hroot : √(1 + (t / O) ^ 2) = √(O * O + t * t) / O := by
    rw [show 1 + (t / O) ^ 2 = (O * O + t * t) / O ^ 2 by field_simp,
      Real.sqrt_div' _ (sq_nonneg O), Real.sqrt_sq hO.le]
  have habove : t ≤ √(O * O + t * t) := Real.le_sqrt_of_sq_le (by nlinarith)
  rw [hroot]
  generalize √(O * O + t * t) = S at hlow hhigh habove
  have hexact : t / O / (1 + S / O) = t / (O + S) := by field_simp
  rw [hexact, abs_le]
  have hmore : t * O / (O + S) ≤ t * O / (O + s) :=
    div_le_div_of_nonneg_left (by positivity) (by positivity) (by linarith)
  have hless : t * O / (O + s) - t * O / (O + S) ≤ 1 := by
    have hS : 0 < O + S := by linarith
    rw [div_sub_div _ _ (by positivity) hS.ne', div_le_one (by positivity)]
    nlinarith [mul_nonneg ht hO.le,
      mul_le_mul habove (show O ≤ O + s by linarith) hO.le (by linarith)]
  have hscaled : t / (O + S) = t * O / (O + S) / O := by field_simp
  rw [hscaled, ← sub_div, div_le_div_iff_of_pos_right hO, ← neg_div, div_le_div_iff_of_pos_right hO]
  constructor <;> linarith

theorem abs_two_mul_arctan_halfTangent_sub_le :
    |2 * Real.arctan (halfTangent bits t / 2 ^ bits) - Real.arctan (t / 2 ^ bits)| ≤
      2 / 2 ^ bits := by
  have hlipschitz := (abs_arctan_sub_arctan_le _ _).trans (abs_halfTangent_sub_le bits t)
  rw [← two_mul_arctan_half (t / 2 ^ bits), ← mul_sub, abs_mul, abs_two]
  calc 2 * |_| ≤ 2 * (1 / 2 ^ bits) := mul_le_mul_of_nonneg_left hlipschitz zero_le_two
    _ = 2 / 2 ^ bits := mul_one_div _ _

/-- Each halving adds an error of one unit of the last place, doubled with
every halving before it. -/
theorem abs_arctan_repeat_halfTangent_sub_le (k : Nat) :
    |2 ^ k * Real.arctan (Nat.repeat (halfTangent bits) k t / 2 ^ bits) -
      Real.arctan (t / 2 ^ bits)| ≤
      2 ^ (k + 1) / 2 ^ bits := by
  induction k with
  | zero =>
      rw [Nat.repeat, pow_zero, one_mul, sub_self, abs_zero]
      positivity
  | succ k ih =>
      rw [Nat.repeat]
      generalize Nat.repeat (halfTangent bits) k t = u at ih
      have hstep := abs_two_mul_arctan_halfTangent_sub_le bits u
      have hsplit : 2 ^ (k + 1) * Real.arctan (halfTangent bits u / 2 ^ bits) -
          Real.arctan (t / 2 ^ bits) =
          2 ^ k * (2 * Real.arctan (halfTangent bits u / 2 ^ bits) - Real.arctan (u / 2 ^ bits)) +
            (2 ^ k * Real.arctan (u / 2 ^ bits) - Real.arctan (t / 2 ^ bits)) := by ring
      rw [hsplit]
      refine (abs_add_le _ _).trans ?_
      rw [abs_mul, abs_of_pos (show (0 : ℝ) < 2 ^ k by positivity)]
      calc 2 ^ k * |2 * Real.arctan (halfTangent bits u / 2 ^ bits) - Real.arctan (u / 2 ^ bits)| +
            |2 ^ k * Real.arctan (u / 2 ^ bits) - Real.arctan (t / 2 ^ bits)|
          ≤ 2 ^ k * (2 / 2 ^ bits) + 2 ^ (k + 1) / 2 ^ bits := by gcongr
        _ = 2 ^ (k + 1 + 1) / 2 ^ bits := by ring

/-- An alternating sum of terms that get smaller lies between zero and its first term. -/
theorem seriesFrom_bounds {square : Nat} (hsquare : square ≤ one bits) (terms : Nat) {odd : Nat}
    (hodd : 0 < odd) (power : Nat) :
    0 ≤ seriesFrom bits square terms odd power ∧
      seriesFrom bits square terms odd power ≤ (power / odd : Nat) := by
  induction terms generalizing odd power with
  | zero => exact ⟨le_rfl, Int.natCast_nonneg _⟩
  | succ terms ih =>
      obtain ⟨hlow, hhigh⟩ := ih (Nat.add_pos_left hodd 2) (power * square / one bits)
      have hnext : power * square / one bits / (odd + 2) ≤ power / odd :=
        Nat.div_le_div (Nat.div_le_of_le_mul
          (by rw [Nat.mul_comm]; exact Nat.mul_le_mul_right power hsquare))
          (Nat.le_add_right _ _) hodd.ne'
      rw [seriesFrom]
      omega

theorem mul_div_one_bounds (bits m n : Nat) :
    ((m * n / one bits : ℕ) : ℝ) / 2 ^ bits ≤ m / 2 ^ bits * (n / 2 ^ bits) ∧
      m / 2 ^ bits * (n / 2 ^ bits) < ((m * n / one bits : ℕ) : ℝ) / 2 ^ bits + 1 / 2 ^ bits := by
  obtain ⟨hfloor, hceil⟩ := natDiv_bounds (m * n) (one_pos bits)
  rw [cast_one, Nat.cast_mul] at hfloor hceil
  have hO : (0 : ℝ) < 2 ^ bits := by positivity
  rw [div_mul_div_comm, ← div_div, ← add_div]
  exact ⟨div_le_div_of_nonneg_right hfloor hO.le, div_lt_div_of_pos_right hceil hO⟩

/-- The powers that the terms of the series are taken from, as they are cut off. -/
theorem power_bounds {u square cube fifth : Nat} (hu : u ≤ one bits)
    (hsquare : u * u / one bits = square) (hcube : u * square / one bits = cube)
    (hfifth : cube * square / one bits = fifth) :
    (cube : ℝ) / 2 ^ bits ≤ (u / 2 ^ bits) ^ 3 ∧
      (u / 2 ^ bits : ℝ) ^ 3 ≤ cube / 2 ^ bits + 2 / 2 ^ bits ∧
      (fifth : ℝ) / 2 ^ bits ≤ (u / 2 ^ bits) ^ 5 := by
  obtain ⟨hsquareLow, hsquareHigh⟩ := mul_div_one_bounds bits u u
  obtain ⟨hcubeLow, hcubeHigh⟩ := mul_div_one_bounds bits u square
  obtain ⟨hfifthLow, -⟩ := mul_div_one_bounds bits cube square
  rw [hsquare] at hsquareLow hsquareHigh
  rw [hcube] at hcubeLow hcubeHigh
  rw [hfifth] at hfifthLow
  have hU : (0 : ℝ) ≤ u / 2 ^ bits := by positivity
  have hU' : (u / 2 ^ bits : ℝ) ≤ 1 := by
    rw [div_le_one (by positivity), ← cast_one]
    exact_mod_cast hu
  have hS : (0 : ℝ) ≤ square / 2 ^ bits := by positivity
  have hrest : (0 : ℝ) ≤ 1 / 2 ^ bits := by positivity
  rw [show (2 : ℝ) / 2 ^ bits = 1 / 2 ^ bits + 1 / 2 ^ bits by ring]
  generalize (u / 2 ^ bits : ℝ) = U at *
  generalize (square / 2 ^ bits : ℝ) = S at *
  generalize (1 / 2 ^ bits : ℝ) = δ at *
  have hcube' : (cube : ℝ) / 2 ^ bits ≤ U ^ 3 :=
    calc (cube : ℝ) / 2 ^ bits ≤ U * S := hcubeLow
      _ ≤ U * (U * U) := mul_le_mul_of_nonneg_left hsquareLow hU
      _ = U ^ 3 := by ring
  refine ⟨hcube', ?_, ?_⟩
  · calc U ^ 3 = U * (U * U) := by ring
      _ ≤ U * (S + δ) := mul_le_mul_of_nonneg_left hsquareHigh.le hU
      _ = U * S + U * δ := mul_add _ _ _
      _ ≤ cube / 2 ^ bits + δ + δ := add_le_add hcubeHigh.le (mul_le_of_le_one_left hrest hU')
      _ = cube / 2 ^ bits + (δ + δ) := add_assoc _ _ _
  · calc (fifth : ℝ) / 2 ^ bits ≤ cube / 2 ^ bits * S := hfifthLow
      _ ≤ U ^ 3 * (U * U) := mul_le_mul hcube' hsquareLow hS (pow_nonneg hU 3)
      _ = U ^ 5 := by ring

/-- The sum of the series stops less than a fifth of the fifth power short of the arc tangent. -/
theorem abs_seriesFrom_sub_le (u terms : Nat) (hu : u ≤ one bits) :
    |(seriesFrom bits (u * u / one bits) (terms + 2) 1 u : ℝ) / 2 ^ bits -
      Real.arctan (u / 2 ^ bits)| ≤
      (u / 2 ^ bits) ^ 5 / 5 + 2 / 2 ^ bits := by
  have hbelow := sub_cube_le_arctan (show (0 : ℝ) ≤ u / 2 ^ bits by positivity)
  have habove := arctan_le_add_fifth (show (0 : ℝ) ≤ u / 2 ^ bits by positivity)
  obtain ⟨hcubeLow, hcubeHigh, hfifth⟩ := power_bounds bits hu rfl rfl rfl
  have hsquare : u * u / one bits ≤ one bits := Nat.div_le_of_le_mul (Nat.mul_le_mul hu hu)
  rw [seriesFrom, seriesFrom, Nat.div_one]
  generalize u * u / one bits = square at *
  generalize u * square / one bits = cube at *
  obtain ⟨htailLow, htailHigh⟩ :=
    seriesFrom_bounds bits hsquare terms (show 0 < 1 + 2 + 2 by decide)
    (cube * square / one bits)
  generalize cube * square / one bits = fifth at *
  generalize seriesFrom bits square terms (1 + 2 + 2) fifth = tail at *
  obtain ⟨hthirdLow, hthirdHigh⟩ := natDiv_bounds cube (show 0 < 1 + 2 by decide)
  have htail : (0 : ℝ) ≤ tail := by exact_mod_cast htailLow
  have htail' : (tail : ℝ) ≤ fifth / 5 := by
    have hcast := (Int.cast_le (R := ℝ)).mpr htailHigh
    rw [Int.cast_natCast] at hcast
    exact hcast.trans Nat.cast_div_le
  generalize cube / (1 + 2) = third at *
  push_cast at *
  have hO : (0 : ℝ) < 2 ^ bits := by positivity
  generalize (2 : ℝ) ^ bits = O at *
  have hsplit : ((u : ℝ) - (third - tail)) / O = u / O - third / O + tail / O := by ring
  have hthird : third / O ≤ cube / O / 3 := by
    rw [div_right_comm]
    exact div_le_div_of_nonneg_right hthirdLow hO.le
  have hthird' : cube / O / 3 ≤ third / O + 1 / O := by
    rw [div_right_comm, ← add_div]
    exact div_le_div_of_nonneg_right hthirdHigh.le hO.le
  have hrest : tail / O ≤ fifth / O / 5 := by
    rw [div_right_comm]
    exact div_le_div_of_nonneg_right htail' hO.le
  have hrest' := div_nonneg htail hO.le
  have hδ : 0 ≤ 1 / O := by positivity
  rw [show 2 / O = 1 / O + 1 / O by ring] at *
  rw [hsplit, abs_le]
  constructor <;> linarith

/-- Eight halvings bring the tangent of any angle below one part in a hundred and fifty. -/
theorem repeat_halfTangent_le (hbits : 64 ≤ bits) :
    ((Nat.repeat (halfTangent bits) halvings t : ℕ) : ℝ) / 2 ^ bits ≤ 13 / 2000 := by
  have herror := (abs_le.mp (abs_arctan_repeat_halfTangent_sub_le bits t halvings)).2
  have hquarter := Real.arctan_lt_pi_div_two (t / 2 ^ bits)
  have hpi := Real.pi_lt_d2
  have hO : (2 : ℝ) ^ (halvings + 1) / 2 ^ bits ≤ 1 / 100 := by
    rw [div_le_div_iff₀ (by positivity) (by norm_num)]
    have : (2 : ℝ) ^ 64 ≤ 2 ^ bits := pow_le_pow_right₀ one_le_two hbits
    rw [halvings]
    norm_num at this ⊢
    linarith
  by_contra hgt
  have hmono := Real.arctan_mono (not_le.mp hgt).le
  have hleast := sub_cube_le_arctan (show (0 : ℝ) ≤ 13 / 2000 by norm_num)
  rw [show (2 : ℝ) ^ halvings = 256 by norm_num [halvings]] at herror
  norm_num at hleast
  linarith

theorem abs_arctan_sub_le (hbits : 64 ≤ bits) :
    |(arctan bits t : ℝ) / 2 ^ bits - Real.arctan (t / 2 ^ bits)| ≤ 1 / 10 ^ 9 := by
  have herror := abs_arctan_repeat_halfTangent_sub_le bits t halvings
  have hsmall := repeat_halfTangent_le bits t hbits
  have hO : (2 : ℝ) ^ 64 ≤ 2 ^ bits := pow_le_pow_right₀ one_le_two hbits
  rw [arctan]
  generalize Nat.repeat (halfTangent bits) halvings t = u at herror hsmall
  have hu : u ≤ one bits := by
    rw [one, Nat.one_shiftLeft]
    have : (u : ℝ) ≤ 2 ^ bits := by
      rw [div_le_iff₀ (by positivity)] at hsmall
      linarith
    exact_mod_cast this
  have hseries := abs_seriesFrom_sub_le bits u (bits / 8) hu
  obtain ⟨hnonneg, -⟩ := seriesFrom_bounds bits (Nat.div_le_of_le_mul (Nat.mul_le_mul hu hu))
    (bits / 8 + 2) Nat.one_pos u
  obtain ⟨sum, hsum⟩ := Int.eq_ofNat_of_zero_le hnonneg
  rw [hsum] at hseries ⊢
  rw [Int.cast_natCast] at hseries
  have hfifth : ((u : ℝ) / 2 ^ bits) ^ 5 ≤ (13 / 2000) ^ 5 :=
    pow_le_pow_left₀ (by positivity) hsmall 5
  have hlast : 1 / (2 : ℝ) ^ bits ≤ 1 / 2 ^ 64 := one_div_le_one_div_of_le (by positivity) hO
  rw [Int.toNat_natCast, Nat.shiftLeft_eq, halvings, Nat.cast_mul, Nat.cast_pow, Nat.cast_ofNat]
  rw [halvings] at herror
  have hsplit : (sum : ℝ) * 2 ^ 8 / 2 ^ bits - Real.arctan (t / 2 ^ bits) =
      2 ^ 8 * (sum / 2 ^ bits - Real.arctan (u / 2 ^ bits)) +
        (2 ^ 8 * Real.arctan (u / 2 ^ bits) - Real.arctan (t / 2 ^ bits)) := by ring
  rw [hsplit]
  calc _ ≤ _ := abs_add_le _ _
    _ ≤ 2 ^ 8 * (((u : ℝ) / 2 ^ bits) ^ 5 / 5 + 2 / 2 ^ bits) + 2 ^ (8 + 1) / 2 ^ bits := by
        rw [abs_mul, abs_of_pos (show (0 : ℝ) < 2 ^ 8 by norm_num)]
        gcongr
    _ = 2 ^ 8 * (((u : ℝ) / 2 ^ bits) ^ 5 / 5) + 2 ^ 10 * (1 / 2 ^ bits) := by ring
    _ ≤ 2 ^ 8 * ((13 / 2000) ^ 5 / 5) + 2 ^ 10 * (1 / 2 ^ 64) := by gcongr
    _ ≤ 1 / 10 ^ 9 := by norm_num

end Angle

end Volley
