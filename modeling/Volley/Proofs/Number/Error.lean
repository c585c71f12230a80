import Mathlib
import Volley.Proofs.Number.Rounded

/-!
# Rounding errors

A result that is a finite number differs from the real result by at most one part in `2 ^ 24`,
or near zero by half the least positive number. Sums and differences have no error near zero,
and square roots are never near it.
-/

namespace Volley.Single

open Float.Model Float.Model.UnpackedFloat

/-- The greatest relative error of a rounding. -/
noncomputable def roundoff : ℝ :=
  1 / (2 ^ 24 : ℕ)

/-- Half the least positive number. -/
noncomputable def underflow : ℝ :=
  1 / (2 ^ 150 : ℕ)

variable {x y : Float32} {r q : ℝ}

theorem roundoff_eq : roundoff = 1 / 2 ^ 24 := by
  rw [roundoff, Nat.cast_pow, Nat.cast_ofNat]

theorem underflow_eq : underflow = 1 / 2 ^ 150 := by
  rw [underflow, Nat.cast_pow, Nat.cast_ofNat]

theorem roundoff_pos : 0 < roundoff := by
  unfold roundoff
  positivity

theorem underflow_pos : 0 < underflow := by
  unfold underflow
  positivity

/-! ## One rounding -/

theorem Approximates.rounds (h : Approximates x r) (hx : x.isFinite = true) : Rounds x r := by
  rcases h.cases with hrounds | ⟨hinfinite, -⟩
  · exact hrounds
  · rw [hx] at hinfinite
    cases hinfinite

theorem Approximates.rounds_of_lt (h : Approximates x r) (hr : |r| < 2 ^ 127) : Rounds x r := by
  rcases h.cases with hrounds | ⟨-, hlarge⟩
  · exact hrounds
  · exact absurd hr (not_lt.mpr hlarge)

theorem Rounds.le_of_le (h : Rounds x r) (hq : Representable q) (hr : r ≤ q) : value x ≤ q := by
  by_contra hgt
  have hnearest := h.nearest q hq
  rw [abs_of_nonneg (sub_nonneg.mpr hr), abs_of_nonneg (by linarith)] at hnearest
  linarith

theorem Rounds.ge_of_ge (h : Rounds x r) (hq : Representable q) (hr : q ≤ r) : q ≤ value x := by
  by_contra hlt
  have hnearest := h.nearest q hq
  rw [abs_of_nonpos (sub_nonpos.mpr hr), abs_of_nonpos (by linarith)] at hnearest
  linarith

theorem representable_one : Representable 1 :=
  value_one ▸ representable_value 1

theorem Rounds.one_le_abs (h : Rounds x r) (hr : 1 ≤ |r|) : 1 ≤ |value x| := by
  rcases le_abs'.mp hr with hneg | hpos
  · have hbelow := h.le_of_le (value_neg_one ▸ representable_value (-1)) hneg
    exact le_abs'.mpr (.inl hbelow)
  · exact le_abs'.mpr (.inr (h.ge_of_ge representable_one hpos))

theorem Rounds.nonneg (h : Rounds x r) (hr : 0 ≤ r) : 0 ≤ value x :=
  h.ge_of_ge representable_zero hr

/-- The numbers up to a power of two in size lie so close together. -/
theorem Rounds.abs_sub_le_of_le (h : Rounds x r) (j : ℕ) (hr : |r| ≤ 2 ^ ((j : ℤ) - 125)) :
    |value x - r| ≤ 2 ^ ((j : ℤ) - 150) := by
  have hpower := power_pos j
  obtain ⟨count, rfl⟩ : ∃ count, r = count * 2 ^ ((j : ℤ) - 149) :=
    ⟨r / 2 ^ ((j : ℤ) - 149), by field_simp⟩
  have hcount : |count| ≤ 2 ^ 24 := by
    rw [abs_mul, abs_of_pos hpower, show (j : ℤ) - 125 = 24 + (j - 149) by ring,
      zpow_add₀ two_ne_zero] at hr
    exact le_of_mul_le_mul_right hr hpower
  have hhalf := abs_sub_round count
  have hdigits : |round count| ≤ 2 ^ 24 := by
    have hlt : |(round count : ℝ)| < 2 ^ 24 + 1 := by
      have htriangle := abs_sub_abs_le_abs_sub (round count : ℝ) count
      rw [abs_sub_comm] at hhalf
      linarith
    exact Int.lt_add_one_iff.mp (by exact_mod_cast hlt)
  calc |value x - count * 2 ^ ((j : ℤ) - 149)|
      ≤ |round count * 2 ^ ((j : ℤ) - 149) - count * 2 ^ ((j : ℤ) - 149)| :=
        h.nearest _ ⟨round count, j, hdigits, rfl⟩
    _ = |count - round count| * 2 ^ ((j : ℤ) - 149) := by
      rw [← sub_mul, abs_mul, abs_of_pos hpower, abs_sub_comm]
    _ ≤ 1 / 2 * 2 ^ ((j : ℤ) - 149) := mul_le_mul_of_nonneg_right hhalf hpower.le
    _ = 2 ^ ((j : ℤ) - 150) := by
        rw [show (j : ℤ) - 150 = -1 + (j - 149) by ring, zpow_add₀ two_ne_zero]
        norm_num

theorem Rounds.abs_sub_le_of_le_one (h : Rounds x r)
    (hr : |r| ≤ 1) : |value x - r| ≤ roundoff / 2 := by
  refine (h.abs_sub_le_of_le 125 (by norm_num; exact hr)).trans_eq ?_
  rw [roundoff_eq]
  norm_num

theorem Rounds.abs_sub_le_of_le_two (h : Rounds x r) (hr : |r| ≤ 2) : |value x - r| ≤ roundoff := by
  refine (h.abs_sub_le_of_le 126 (by norm_num; exact hr)).trans_eq ?_
  rw [roundoff_eq]
  norm_num

/-- From a power of two on, the numbers are whole multiples of the distance at
which they lie there. -/
theorem exists_multiple_of_ge (k : ℕ) (hx : 2 ^ ((k : ℤ) - 126) ≤ value x) :
    ∃ n : ℤ, value x = n * 2 ^ ((k : ℤ) - 149) := by
  obtain ⟨n, j, hn, hvalue⟩ := representable_value x
  by_cases hj : k ≤ j
  · obtain ⟨gap, rfl⟩ := Nat.exists_eq_add_of_le hj
    refine ⟨n * 2 ^ gap, ?_⟩
    rw [hvalue, show ((k + gap : ℕ) : ℤ) - 149 = gap + (k - 149) by push_cast; ring,
      zpow_add₀ two_ne_zero, zpow_natCast]
    push_cast
    ring
  · -- Of the closer ones, only the power itself has few enough digits.
    obtain ⟨gap, rfl⟩ := Nat.exists_eq_add_of_lt (Nat.lt_of_not_le hj)
    have hn' : (n : ℝ) ≤ 2 ^ 24 := by exact_mod_cast (le_abs_self n).trans hn
    have hgap : (1 : ℝ) ≤ 2 ^ gap := one_le_pow₀ one_le_two
    have hpower := power_pos j
    have hsplit : (2 : ℝ) ^ (((j + gap + 1 : ℕ) : ℤ) - 149) =
        2 ^ gap * 2 * 2 ^ ((j : ℤ) - 149) := by
      rw [show ((j + gap + 1 : ℕ) : ℤ) - 149 = (gap + 1 : ℕ) + (j - 149) by push_cast; ring,
        zpow_add₀ two_ne_zero,
        zpow_natCast, pow_succ]
    have hwhole : ((2 ^ 23 : ℤ) : ℝ) * 2 ^ (((j + gap + 1 : ℕ) : ℤ) - 149) =
        2 ^ (((j + gap + 1 : ℕ) : ℤ) - 126) := by
      rw [show ((j + gap + 1 : ℕ) : ℤ) - 126 = 23 + (((j + gap + 1 : ℕ) : ℤ) - 149) by ring,
        zpow_add₀ two_ne_zero]
      norm_num
    rw [← hwhole] at hx
    refine ⟨2 ^ 23, le_antisymm ?_ hx⟩
    rw [hvalue, hsplit]
    push_cast
    nlinarith [mul_le_mul_of_nonneg_right hn' hpower.le, mul_le_mul_of_nonneg_right hgap hpower.le]

theorem Rounds.abs_sub_le_of_ge (h : Rounds x r)
    (hr : 1 / 2 ^ 125 ≤ |r|) : |value x - r| ≤ roundoff * |r| := by
  obtain ⟨n, hlow, hhigh⟩ := exists_mem_Ico_zpow (show 0 < |r| by positivity) (one_lt_two (α := ℝ))
  have hn : -126 < n := by
    have : (2 : ℝ) ^ (-125 : ℤ) < 2 ^ (n + 1) := by
      refine lt_of_le_of_lt ?_ hhigh
      norm_num
      linarith
    have := (zpow_lt_zpow_iff_right₀ one_lt_two).mp this
    omega
  obtain ⟨j, hj⟩ := Int.eq_ofNat_of_zero_le (show 0 ≤ n + 126 by omega)
  have herror := h.abs_sub_le_of_le j (by rw [show (j : ℤ) - 125 = n + 1 by omega]; exact hhigh.le)
  rw [show (j : ℤ) - 150 = -24 + n by omega, zpow_add₀ two_ne_zero] at herror
  refine herror.trans ?_
  rw [roundoff_eq, show (2 : ℝ) ^ (-24 : ℤ) = 1 / 2 ^ 24 by norm_num]
  exact mul_le_mul_of_nonneg_left hlow (by positivity)

theorem Rounds.abs_sub_le (h : Rounds x r) : |value x - r| ≤ roundoff * |r| + underflow := by
  by_cases hr : 1 / 2 ^ 125 ≤ |r|
  · exact (h.abs_sub_le_of_ge hr).trans (le_add_of_nonneg_right underflow_pos.le)
  · have herror := h.abs_sub_le_of_le 0 (by norm_num at hr ⊢; exact hr.le)
    have hzero := mul_nonneg roundoff_pos.le (abs_nonneg r)
    refine herror.trans ?_
    rw [underflow_eq]
    norm_num
    exact hzero

/-! ## Finite results

What is computed from an infinity or from what is not a number is no finite
number either, division apart. -/

theorem finite_of_pack {u : UnpackedFloat}
    (h : (Float32.ofModel (.pack u)).isFinite = true) : u.isFinite = true := by
  rw [isFinite_eq, unpack_ofModel_pack] at h
  cases u with
  | notANumber => exact absurd h (by decide +kernel)
  | infinity sign =>
      rw [UnpackedFloat.pack, unpack_packedInfinity] at h
      cases h
  | zero => rfl
  | finite => rfl

theorem finite_of_add (h : (x + y).isFinite = true) : x.isFinite = true ∧ y.isFinite = true := by
  have hsum : (UnpackedFloat.add Format.binary32 x.toModel.unpack y.toModel.unpack).isFinite =
      true := finite_of_pack h
  rw [isFinite_eq, isFinite_eq]
  generalize x.toModel.unpack = u at hsum
  generalize y.toModel.unpack = v at hsum
  cases u <;> cases v <;> simp only [UnpackedFloat.add] at hsum <;> first
    | exact ⟨rfl, rfl⟩
    | cases hsum
    | split at hsum <;> cases hsum

theorem finite_of_sub (h : (x - y).isFinite = true) : x.isFinite = true ∧ y.isFinite = true := by
  have hdifference : (UnpackedFloat.sub Format.binary32 x.toModel.unpack
      y.toModel.unpack).isFinite = true := finite_of_pack h
  rw [isFinite_eq, isFinite_eq]
  generalize x.toModel.unpack = u at hdifference
  generalize y.toModel.unpack = v at hdifference
  cases u <;> cases v <;> simp only [UnpackedFloat.sub] at hdifference <;> first
    | exact ⟨rfl, rfl⟩
    | cases hdifference
    | split at hdifference <;> cases hdifference

theorem finite_of_mul (h : (x * y).isFinite = true) : x.isFinite = true ∧ y.isFinite = true := by
  have hproduct : (UnpackedFloat.mul Format.binary32 x.toModel.unpack y.toModel.unpack).isFinite =
      true := finite_of_pack h
  rw [isFinite_eq, isFinite_eq]
  generalize x.toModel.unpack = u at hproduct
  generalize y.toModel.unpack = v at hproduct
  cases u <;> cases v <;> simp only [UnpackedFloat.mul] at hproduct <;> first
    | exact ⟨rfl, rfl⟩
    | cases hproduct

theorem finite_of_sqrt (h : x.sqrt.isFinite = true) : x.isFinite = true := by
  have hroot : (UnpackedFloat.sqrt Format.binary32 x.toModel.unpack).isFinite = true :=
    finite_of_pack h
  rw [isFinite_eq]
  generalize x.toModel.unpack = u at hroot
  cases u with
  | infinity sign => cases sign <;> cases hroot
  | _ => first | rfl | cases hroot

/-! ## One operation -/

theorem exists_multiple (x : Float32) : ∃ n : ℤ, value x = n * 2 ^ (-149 : ℤ) := by
  obtain ⟨n, k, -, hn⟩ := representable_value x
  refine ⟨n * 2 ^ k, ?_⟩
  rw [hn, zpow_eq]
  push_cast
  ring

theorem abs_value_lt (x : Float32) : |value x| < 2 ^ 128 := by
  by_cases hx : x.isFinite = true
  · obtain ⟨sign, m, k, hk, hu⟩ := exists_spells hx
    have hm : (m : ℝ) < 2 ^ 24 := by exact_mod_cast hu.canonical.1
    have hpower : (2 : ℝ) ^ ((k : ℤ) - 149) ≤ 2 ^ (104 : ℤ) :=
      zpow_le_zpow_right₀ one_le_two (by omega)
    rw [value, hu.value_eq, abs_mul, abs_factor, one_mul, abs_of_nonneg (by positivity)]
    calc (m : ℝ) * 2 ^ ((k : ℤ) - 149) < 2 ^ 24 * 2 ^ ((k : ℤ) - 149) :=
      mul_lt_mul_of_pos_right hm (power_pos k)
      _ ≤ 2 ^ 24 * 2 ^ (104 : ℤ) := mul_le_mul_of_nonneg_left hpower (by positivity)
      _ = 2 ^ 128 := by norm_num
  · rw [value_of_not_finite hx, abs_zero]
    positivity

/-- A whole number of least positive numbers is rounded without an error near zero. -/
theorem Rounds.abs_sub_le_of_multiple {n : ℤ} (h : Rounds x r) (hr : r = n * 2 ^ (-149 : ℤ)) :
    |value x - r| ≤ roundoff * |r| := by
  by_cases hlarge : 1 / 2 ^ 125 ≤ |r|
  · exact h.abs_sub_le_of_ge hlarge
  · have hdigits : |n| ≤ 2 ^ 24 := by
      have hlt : |(n : ℝ)| < 2 ^ 24 := by
        have hpower : (0 : ℝ) < 2 ^ (-149 : ℤ) := by positivity
        rw [hr, abs_mul, not_le, abs_of_pos hpower, ← lt_div_iff₀ hpower] at hlarge
        refine hlarge.trans_le (le_of_eq ?_)
        norm_num
      exact_mod_cast hlt.le
    rw [h.eq_of_representable ⟨n, 0, hdigits, hr⟩, sub_self, abs_zero]
    exact mul_nonneg roundoff_pos.le (abs_nonneg _)

theorem abs_add_sub_le (h : (x + y).isFinite = true) :
    |value (x + y) - (value x + value y)| ≤ roundoff * |value x + value y| := by
  obtain ⟨hx, hy⟩ := finite_of_add h
  obtain ⟨n, hn⟩ := exists_multiple x
  obtain ⟨m, hm⟩ := exists_multiple y
  refine ((approximates_add hx hy).rounds h).abs_sub_le_of_multiple (n := n + m) ?_
  rw [hn, hm, Int.cast_add, add_mul]

theorem abs_sub_sub_le (h : (x - y).isFinite = true) :
    |value (x - y) - (value x - value y)| ≤ roundoff * |value x - value y| := by
  obtain ⟨hx, hy⟩ := finite_of_sub h
  obtain ⟨n, hn⟩ := exists_multiple x
  obtain ⟨m, hm⟩ := exists_multiple y
  refine ((approximates_sub hx hy).rounds h).abs_sub_le_of_multiple (n := n - m) ?_
  rw [hn, hm, Int.cast_sub, sub_mul]

theorem abs_mul_sub_le (h : (x * y).isFinite = true) :
    |value (x * y) - value x * value y| ≤ roundoff * |value x * value y| + underflow := by
  obtain ⟨hx, hy⟩ := finite_of_mul h
  exact ((approximates_mul hx hy).rounds h).abs_sub_le

theorem abs_sqrt_sub_le (hx : x.isFinite = true) (hnonneg : 0 ≤ value x) :
    x.sqrt.isFinite = true ∧ |value x.sqrt - √(value x)| ≤ roundoff * √(value x) := by
  have hbound : |√(value x)| < 2 ^ 127 := by
    rw [abs_of_nonneg (Real.sqrt_nonneg _), Real.sqrt_lt' (by positivity)]
    refine ((le_abs_self _).trans_lt (abs_value_lt x)).trans_le ?_
    norm_num
  have hrounds := (approximates_sqrt hx hnonneg).rounds_of_lt hbound
  refine ⟨hrounds.finite, ?_⟩
  obtain ⟨n, hn⟩ := exists_multiple x
  rcases hnonneg.eq_or_lt with hzero | hpos
  · rw [← hzero, Real.sqrt_zero] at hrounds ⊢
    rw [hrounds.eq_of_representable representable_zero, sub_zero, abs_zero, mul_zero]
  · have hone : (1 : ℝ) ≤ n := by
      rw [hn] at hpos
      have := pos_of_mul_pos_left hpos (show (0 : ℝ) ≤ 2 ^ (-149 : ℤ) by positivity)
      exact_mod_cast this
    have hroot : 1 / 2 ^ 125 ≤ |√(value x)| := by
      rw [abs_of_nonneg (Real.sqrt_nonneg _)]
      refine Real.le_sqrt_of_sq_le ?_
      rw [hn]
      calc (1 / 2 ^ 125 : ℝ) ^ 2 ≤ 1 * 2 ^ (-149 : ℤ) := by norm_num
        _ ≤ n * 2 ^ (-149 : ℤ) := mul_le_mul_of_nonneg_right hone (by positivity)
    have herror := hrounds.abs_sub_le_of_ge hroot
    rwa [abs_of_nonneg (Real.sqrt_nonneg (value x))] at herror

/-- What is divided by an infinity, or by what is not a number, is no number but zero. -/
theorem value_div_of_not_finite (hy : ¬y.isFinite = true) : value (x / y) = 0 := by
  by_cases hquotient : (x / y).isFinite = true
  · have hzero : (UnpackedFloat.div Format.binary32 x.toModel.unpack y.toModel.unpack).isFinite =
        true :=
      finite_of_pack hquotient
    have hunpack : (x / y).toModel.unpack = unpack Format.binary32
      (pack Format.binary32 (UnpackedFloat.div Format.binary32 x.toModel.unpack
        y.toModel.unpack)) := rfl
    rw [value, hunpack]
    rw [isFinite_eq] at hy
    generalize x.toModel.unpack = u at hzero
    generalize y.toModel.unpack = v at hzero hy
    cases v with
    | zero | finite => exact absurd rfl hy
    | notANumber => cases u <;> cases hzero
    | infinity sign =>
        cases u with
        | notANumber | infinity => cases hzero
        | zero | finite =>
            exact (congrArg unpackedValue (unpack_packComponents _ 0 0)).trans
              (unpackedValue_zero _)
  · exact value_of_not_finite hquotient

theorem unpack_pack_notANumber :
    unpack Format.binary32 (UnpackedFloat.pack Format.binary32 .notANumber) = .notANumber := by
  rfl

/-- The root of what is not finite is an infinity or no number, and less than no number. -/
theorem not_sqrt_lt_of_not_finite (hx : ¬x.isFinite = true)
    (hy : y.isFinite = true) : ¬x.sqrt < y := by
  have hroot : x.sqrt.toModel.unpack = unpack Format.binary32
    (UnpackedFloat.pack Format.binary32 (UnpackedFloat.sqrt Format.binary32 x.toModel.unpack)) :=
      rfl
  rw [isFinite_eq] at hx hy
  rw [lt_iff, hroot]
  generalize x.toModel.unpack = u at hx
  generalize y.toModel.unpack = v at hy
  cases u with
  | zero | finite => exact absurd rfl hx
  | notANumber =>
      rw [UnpackedFloat.sqrt, unpack_pack_notANumber]
      exact Bool.false_ne_true
  | infinity sign =>
      cases sign with
      | negative =>
          rw [UnpackedFloat.sqrt, unpack_pack_notANumber]
          exact Bool.false_ne_true
      | positive =>
          rw [UnpackedFloat.sqrt, UnpackedFloat.pack, unpack_packedInfinity]
          cases v with
          | notANumber | infinity => cases hy
          | zero | finite => exact Bool.false_ne_true

/-- A root has a positive reciprocal only if it is the root of a positive number. -/
theorem pos_of_reciprocal_sqrt (hfinite : (1 / x.sqrt).isFinite = true) (hpos : 0 < 1 / x.sqrt) :
    x.isFinite = true ∧ 0 < value x := by
  have hunpack : (1 / x.sqrt).toModel.unpack =
      unpack Format.binary32 (UnpackedFloat.pack Format.binary32
    (UnpackedFloat.div Format.binary32 (1 : Float32).toModel.unpack (unpack Format.binary32
      (UnpackedFloat.pack Format.binary32
        (UnpackedFloat.sqrt Format.binary32 x.toModel.unpack))))) := rfl
  have hquotient : (UnpackedFloat.div Format.binary32 (1 : Float32).toModel.unpack
      (unpack Format.binary32
      (UnpackedFloat.pack Format.binary32
        (UnpackedFloat.sqrt Format.binary32 x.toModel.unpack)))).isFinite = true :=
    finite_of_pack hfinite
  rw [lt_iff, hunpack] at hpos
  rw [isFinite_eq, value]
  rw [unpack_one] at hquotient hpos
  generalize x.toModel.unpack = u at hquotient hpos
  cases u with
  | notANumber =>
      rw [UnpackedFloat.sqrt, unpack_pack_notANumber] at hquotient
      cases hquotient
  | infinity sign =>
      cases sign with
      | negative =>
          rw [UnpackedFloat.sqrt, unpack_pack_notANumber] at hquotient
          cases hquotient
      | positive =>
          rw [UnpackedFloat.sqrt, UnpackedFloat.pack, unpack_packedInfinity] at hpos
          exact absurd hpos (by decide +kernel)
  | zero sign =>
      rw [UnpackedFloat.sqrt, (spells_zero sign).unpack_pack (by decide)] at hquotient
      cases hquotient
  | finite sign m e hm =>
      cases sign with
      | negative =>
          rw [UnpackedFloat.sqrt, unpack_pack_notANumber] at hquotient
          cases hquotient
      | positive =>
          refine ⟨rfl, ?_⟩
          rw [unpackedValue, factor]
          positivity

end Volley.Single
