import Mathlib
import Volley.Number.Rounding
import Volley.Proofs.Number.Whole

/-!
# The real numbers that are held

A finite single-precision number stands for a real number: a sign, a significand of at
most twenty-four binary digits and the power of two that it counts. Finite numbers are
ordered as the reals that they stand for.
-/

namespace Volley.Single

open Float.Model Float.Model.UnpackedFloat
open Volley.Nearest

noncomputable def factor : Sign → ℝ
  | .negative => -1
  | .positive => 1

/-- What stands for no real number counts as zero. -/
noncomputable def unpackedValue : UnpackedFloat → ℝ
  | .finite sign m e _ => factor sign * (m * 2 ^ e)
  | _ => 0

noncomputable def value (x : Float32) : ℝ :=
  unpackedValue x.toModel.unpack

@[simp] theorem unpackedValue_zero (sign : Sign) : unpackedValue (.zero sign) = 0 := rfl

@[simp] theorem value_zero : value 0 = 0 := by
  rw [value, unpack_zero_eq, unpackedValue_zero]

@[simp] theorem value_one : value 1 = 1 := by
  rw [value, unpack_one, unpackedValue, factor]
  norm_num

theorem value_neg_one : value (-1) = -1 := by
  have hunpack : (-1 : Float32).toModel.unpack = .finite .negative 8388608 (-23) (by decide) := rfl
  rw [value, hunpack, unpackedValue, factor]
  norm_num

theorem value_of_unpack {x : Float32} {m : Nat} {e : Int} {hm : 0 < m}
    (h : x.toModel.unpack = .finite .positive m e hm) :
    value x = m * 2 ^ e := by
  rw [value, h, unpackedValue, factor, one_mul]

@[simp] theorem value_three : value 3 = 3 := by
  rw [value_of_unpack (show (3 : Float32).toModel.unpack =
    .finite .positive 12582912 (-22) (by decide) from rfl)]
  norm_num

/-- An unpacked number in the form in which it is packed; the significand of a zero is zero. -/
structure Spells (u : UnpackedFloat) (sign : Sign) (m k : Nat) : Prop where
  canonical : Canonical m k
  shape : (m = 0 ∧ u = .zero sign) ∨ ∃ hm, u = .finite sign m (k - 149) hm

variable {x y : Float32} {u v : UnpackedFloat} {sign other : Sign} {m k n j : Nat}

theorem Spells.value_eq (hu : Spells u sign m k) :
    unpackedValue u = factor sign * (m * 2 ^ ((k : ℤ) - 149)) := by
  rcases hu.shape with ⟨rfl, rfl⟩ | ⟨hm, rfl⟩
  · simp
  · rfl

theorem abs_factor (sign : Sign) : |factor sign| = 1 := by
  cases sign <;> simp [factor]

theorem factor_mul (s t : Sign) : factor (s * t) = factor s * factor t := by
  cases s with
  | negative =>
      cases t with
      | negative => exact (neg_mul_neg (1 : ℝ) 1).symm ▸ (one_mul (1 : ℝ)).symm
      | positive => exact (mul_one (-1 : ℝ)).symm
  | positive => cases t <;> exact (one_mul _).symm

theorem factor_div (s t : Sign) : factor (s / t) = factor s / factor t := by
  rw [show s / t = s * t from rfl, factor_mul]
  cases t with
  | negative => rw [factor, div_neg, div_one, mul_neg_one]
  | positive => rw [factor, div_one, mul_one]

theorem factor_neg (sign : Sign) : factor (-sign) = -factor sign := by
  cases sign with
  | negative => exact (neg_neg (1 : ℝ)).symm
  | positive => rfl

/-! ## Packing -/

theorem unpackSign_packComponents (sign : Sign) (exponent : BitVec 8) (mantissa : BitVec 23) :
    @unpackSign Format.binary32 (packComponents Format.binary32 sign exponent mantissa) =
      sign.toBitVec := by
  apply BitVec.eq_of_toNat_eq
  have hpacked : (packComponents Format.binary32 sign exponent mantissa).toNat =
      (sign.toBitVec.toNat * 2 ^ 8 + exponent.toNat) * 2 ^ 23 + mantissa.toNat :=
    (toNat_append (sign.toBitVec ++ exponent) mantissa).trans (by rw [toNat_append])
  have hsign := sign.toBitVec.isLt
  have hexponent := exponent.isLt
  have hmantissa := mantissa.isLt
  rw [toNat_unpackSign, hpacked]
  omega

theorem ofBitVec_toBitVec (sign : Sign) : Sign.ofBitVec sign.toBitVec = sign := by
  cases sign <;> rfl

/-- The unpacked number with the given components. -/
def assembled (sign : Sign) (exponent : BitVec 8) (mantissa : BitVec 23) : UnpackedFloat :=
  if exponent = -1#8 then if mantissa = 0#23 then .infinity sign else .notANumber
  else if exponent = 0#8 then
    if h : mantissa = 0#23 then .zero sign
    else .finite sign mantissa.toNat ((exponent.toNat : Int) - ((127 : Nat) + (23 : Nat)) + 1)
      (Nat.pos_of_ne_zero fun hzero => h (BitVec.eq_of_toNat_eq hzero))
  else .finite sign (1#1 ++ mantissa).toNat ((exponent.toNat : Int) - ((127 : Nat) + (23 : Nat)))
    (by rw [toNat_append]; exact Nat.add_pos_left (by decide) _)

theorem unpack_eq_assembled {b : BitVec 32} {exponent : BitVec 8} {mantissa : BitVec 23}
    (hsign : Sign.ofBitVec (@unpackSign Format.binary32 b) = sign)
    (hexponent : @unpackExponent Format.binary32 b = exponent)
    (hmantissa : @unpackMantissa Format.binary32 b = mantissa) :
    unpack Format.binary32 b = assembled sign exponent mantissa := by
  subst hsign hexponent hmantissa
  rfl

theorem unpack_packComponents (sign : Sign) (exponent : BitVec 8) (mantissa : BitVec 23) :
    unpack Format.binary32 (packComponents Format.binary32 sign exponent mantissa) =
      assembled sign exponent mantissa :=
  unpack_eq_assembled (by rw [unpackSign_packComponents, ofBitVec_toBitVec])
    unpackExponent_packComponents
    unpackMantissa_packComponents

theorem Spells.unpack_pack (hu : Spells u sign m k) (hk : k < 254) :
    unpack Format.binary32 (pack Format.binary32 u) = u := by
  rcases hu.shape with ⟨rfl, rfl⟩ | ⟨hm, rfl⟩
  · exact unpack_packComponents sign 0 0
  · obtain ⟨hdigits, hleast⟩ := hu.canonical
    have hbiased : ((k : Int) - 149 + (127 : Nat) + (23 : Nat)).toNat = k + 1 := by omega
    change unpack Format.binary32
      (if 2 ^ 8 ≤ ((k : Int) - 149 + (127 : Nat) + (23 : Nat)).toNat +
        1 then packedInfinity Format.binary32 sign
      else if m.log2 + 1 = 24 then
        packComponents Format.binary32 sign
          (BitVec.ofNat 8 ((k : Int) - 149 + (127 : Nat) + (23 : Nat)).toNat) (BitVec.ofNat 23 m)
      else packComponents Format.binary32 sign (BitVec.ofNat 8 0) (BitVec.ofNat 23 m)) = _
    rw [hbiased, if_neg (by omega)]
    by_cases hnormal : 2 ^ 23 ≤ m
    · have hlog : m.log2 = 23 := (Nat.log2_eq_iff hm.ne').mpr ⟨hnormal, hdigits⟩
      have hexponent : (BitVec.ofNat 8 (k + 1)).toNat = k + 1 := by
        rw [BitVec.toNat_ofNat, Nat.mod_eq_of_lt (by omega)]
      have hones : ¬BitVec.ofNat 8 (k + 1) = -1#8 := by
        intro heq
        have := congrArg BitVec.toNat heq
        rw [hexponent] at this
        change k + 1 = 255 at this
        omega
      have hzero : ¬BitVec.ofNat 8 (k + 1) = 0#8 := by
        intro heq
        have := congrArg BitVec.toNat heq
        rw [hexponent] at this
        exact absurd this (Nat.succ_ne_zero k)
      rw [if_pos (by rw [hlog]), unpack_packComponents, assembled, if_neg hones, if_neg hzero]
      congr 1
      · rw [toNat_append, BitVec.toNat_ofNat]
        change 1 * 2 ^ 23 + m % 2 ^ 23 = m
        omega
      · rw [hexponent]
        omega
    · have hlog : m.log2 < 23 := (Nat.log2_lt hm.ne').mpr (by omega)
      have hmantissa : (BitVec.ofNat 23 m).toNat = m := by
        rw [BitVec.toNat_ofNat, Nat.mod_eq_of_lt (by omega)]
      have hzero : ¬BitVec.ofNat 23 m = 0#23 := by
        intro heq
        have := congrArg BitVec.toNat heq
        rw [hmantissa] at this
        exact hm.ne' this
      obtain rfl : k = 0 := by omega
      rw [if_neg (by omega), unpack_packComponents, assembled, if_neg (by decide),
        if_pos rfl, dif_neg hzero]
      congr 1

theorem unpack_packedInfinity (sign : Sign) :
    unpack Format.binary32 (packedInfinity Format.binary32 sign) = .infinity sign :=
  unpack_packComponents sign (-1#8) 0

theorem pack_of_large (hm : 0 < m) (hk : 254 ≤ k) :
    pack Format.binary32 (.finite sign m (k - 149) hm) = packedInfinity Format.binary32 sign := by
  have hbiased : ((k : Int) - 149 + (127 : Nat) + (23 : Nat)).toNat = k + 1 := by omega
  change (if 2 ^ 8 ≤ ((k : Int) - 149 + (127 : Nat) + (23 : Nat)).toNat +
    1 then packedInfinity Format.binary32 sign
    else _) = _
  rw [hbiased, if_pos (by omega)]

/-! ## Finite numbers -/

theorem unpack_ofModel_pack (u : UnpackedFloat) :
    (Float32.ofModel (.pack u)).toModel.unpack =
      unpack Format.binary32 (pack Format.binary32 u) := rfl

theorem isFinite_eq (x : Float32) : x.isFinite = x.toModel.unpack.isFinite := rfl

theorem value_of_not_finite (hx : ¬x.isFinite = true) : value x = 0 := by
  rw [isFinite_eq] at hx
  rw [value]
  cases hunpack : x.toModel.unpack with
  | notANumber => rfl
  | infinity => rfl
  | zero => rfl
  | finite =>
      rw [hunpack] at hx
      exact absurd rfl hx

theorem Spells.isFinite (hx : Spells x.toModel.unpack sign m k) : x.isFinite = true := by
  rw [isFinite_eq]
  rcases hx.shape with ⟨-, hshape⟩ | ⟨hm, hshape⟩
  · rw [hshape]
    rfl
  · rw [hshape]
    rfl

theorem power_lt_of_unpack {b : BitVec 32} {hm : 0 < m}
    (hunpack : unpack Format.binary32 b = .finite sign m (k - 149) hm) :
    k < 254 := by
  have hexponent := toNat_unpackExponent b
  rw [UnpackedFloat.unpack] at hunpack
  dsimp only at hunpack
  split at hunpack
  · split at hunpack <;> cases hunpack
  · rename_i hones
    have hfinite := mt (unpackExponent_eq_ones_iff b).mpr hones
    have hbyte := Nat.mod_lt (b.toNat / 2 ^ 23) (show 0 < 2 ^ 8 by decide)
    split at hunpack
    · split at hunpack
      · cases hunpack
      · rename_i hzero _
        injection hunpack with _ _ hpower
        rw [hzero] at hpower
        change ((0 : Nat) : Int) - ((127 : Nat) + (23 : Nat)) + 1 = _ at hpower
        omega
    · injection hunpack with _ _ hpower
      change ((unpackExponent b : BitVec Format.binary32.exponentBits).toNat : Int) -
        ((127 : Nat) + (23 : Nat)) = _
        at hpower
      omega

theorem exists_spells (hx : x.isFinite = true) :
    ∃ sign m k, k < 254 ∧ Spells x.toModel.unpack sign m k := by
  rw [isFinite_eq] at hx
  cases hunpack : x.toModel.unpack with
  | notANumber =>
      rw [hunpack] at hx
      cases hx
  | infinity sign =>
      rw [hunpack] at hx
      cases hx
  | zero sign => exact ⟨sign, 0, 0, by omega, ⟨⟨by omega, Or.inl rfl⟩, Or.inl ⟨rfl, rfl⟩⟩⟩
  | finite sign m e hm =>
      obtain ⟨k, hcanonical, rfl⟩ := canonical_of_unpack hunpack
      exact ⟨sign, m, k, power_lt_of_unpack hunpack, hcanonical, Or.inr ⟨hm, rfl⟩⟩

theorem unpack_eq_zero_of_value (hx : x.isFinite = true)
    (hzero : value x = 0) : ∃ sign, x.toModel.unpack = .zero sign := by
  obtain ⟨sign, m, k, -, hu⟩ := exists_spells hx
  rcases hu.shape with ⟨-, hshape⟩ | ⟨hm, -⟩
  · exact ⟨sign, hshape⟩
  · have hpos : (0 : ℝ) < m * 2 ^ ((k : ℤ) - 149) := by positivity
    rw [value, hu.value_eq, ← abs_eq_zero, abs_mul, abs_factor, one_mul, abs_of_pos hpos] at hzero
    exact absurd hzero hpos.ne'

/-- Adding zero changes nothing, however great the other number is. -/
theorem value_add_of_zero (hx : x.isFinite = true) (hy : y.isFinite = true) (hzero : value y = 0) :
    (x + y).isFinite = true ∧ value (x + y) = value x := by
  obtain ⟨other, hother⟩ := unpack_eq_zero_of_value hy hzero
  obtain ⟨sign, m, k, hk, hu⟩ := exists_spells hx
  have hsum : (x + y).toModel.unpack = unpack Format.binary32
      (UnpackedFloat.pack Format.binary32 (UnpackedFloat.add Format.binary32 x.toModel.unpack
        y.toModel.unpack)) := rfl
  rw [isFinite_eq, value, value, hsum, hother]
  generalize x.toModel.unpack = u at hu
  rcases hu.shape with ⟨-, rfl⟩ | ⟨hm, rfl⟩
  · rw [UnpackedFloat.add]
    have hpacked (sign : Sign) :
        unpack Format.binary32 (UnpackedFloat.pack Format.binary32 (.zero sign)) = .zero sign :=
      unpack_packComponents sign 0 0
    split <;> rw [hpacked] <;> exact ⟨rfl, rfl⟩
  · have hadd : UnpackedFloat.add Format.binary32 (.finite sign m (k - 149) hm) (.zero other) =
        .finite sign m (k - 149) hm := rfl
    rw [hadd, hu.unpack_pack hk]
    exact ⟨rfl, rfl⟩

/-! ## Order -/

theorem power_pos (k : Nat) : (0 : ℝ) < 2 ^ ((k : ℤ) - 149) := by positivity

theorem zpow_eq (k : Nat) : (2 : ℝ) ^ ((k : ℤ) - 149) = 2 ^ k * 2 ^ (-149 : ℤ) := by
  rw [sub_eq_add_neg, zpow_add₀ two_ne_zero, zpow_natCast]

theorem digits_lt_iff :
    (n * 2 ^ ((j : ℤ) - 149) : ℝ) < m * 2 ^ ((k : ℤ) - 149) ↔ n * 2 ^ j < m * 2 ^ k := by
  rw [zpow_eq, zpow_eq, ← mul_assoc, ← mul_assoc, mul_lt_mul_iff_left₀ (by positivity)]
  exact_mod_cast Iff.rfl

/-- A number without a sign is the greater, the greater its power and under
the same power its significand. -/
theorem compare_digits (hm : Canonical m k) (hn : Canonical n j) :
    compare (m * 2 ^ ((k : ℤ) - 149) : ℝ) (n * 2 ^ ((j : ℤ) - 149)) =
      (compare ((k : Int) - 149) ((j : Int) - 149)).then (compare m n) := by
  obtain ⟨hmdigits, hmleast⟩ := id hm
  obtain ⟨hndigits, hnleast⟩ := id hn
  rcases Nat.lt_trichotomy k j with hlt | rfl | hgt
  · rw [compare_lt_iff_lt.mpr (show (k : Int) - 149 < j - 149 by omega), Ordering.lt_then,
      compare_lt_iff_lt,
      digits_lt_iff]
    exact hn.mul_lt_mul hm (by omega)
  · rw [compare_eq_iff_eq.mpr rfl, Ordering.eq_then]
    rcases Nat.lt_trichotomy m n with hlt | rfl | hgt
    · rw [compare_lt_iff_lt.mpr hlt, compare_lt_iff_lt, digits_lt_iff]
      exact hn.mul_lt_mul hm (by omega)
    · rw [compare_eq_iff_eq.mpr rfl, compare_eq_iff_eq.mpr rfl]
    · rw [compare_gt_iff_gt.mpr hgt, compare_gt_iff_gt]
      refine digits_lt_iff.mpr ?_
      exact hm.mul_lt_mul hn (by omega)
  · rw [compare_gt_iff_gt.mpr (show (k : Int) - 149 > j - 149 by omega), Ordering.gt_then,
      compare_gt_iff_gt]
    refine digits_lt_iff.mpr ?_
    exact hm.mul_lt_mul hn (by omega)

theorem compare_neg_neg (a b : ℝ) : compare (-a) (-b) = compare b a := by
  rcases lt_trichotomy a b with hlt | rfl | hgt
  · rw [compare_gt_iff_gt.mpr (neg_lt_neg hlt), compare_gt_iff_gt.mpr hlt]
  · rw [compare_eq_iff_eq.mpr rfl, compare_eq_iff_eq.mpr rfl]
  · rw [compare_lt_iff_lt.mpr (neg_lt_neg hgt), compare_lt_iff_lt.mpr hgt]

theorem compare_eq (hx : x.isFinite = true) (hy : y.isFinite = true) :
    x.toModel.unpack.compare y.toModel.unpack = some (compare (value x) (value y)) := by
  obtain ⟨sign, m, k, -, hu⟩ := exists_spells hx
  obtain ⟨other, n, j, -, hv⟩ := exists_spells hy
  rw [value, value, hu.value_eq, hv.value_eq]
  have hcompare := compare_digits hu.canonical hv.canonical
  have hreverse := compare_digits hv.canonical hu.canonical
  have hpower := power_pos k
  have hother := power_pos j
  rcases hu.shape with ⟨rfl, hzero⟩ | ⟨hm, hfinite⟩
  · rw [hzero, Nat.cast_zero, zero_mul, mul_zero]
    rcases hv.shape with ⟨rfl, hzero'⟩ | ⟨hn, hfinite'⟩
    · rw [hzero', Nat.cast_zero, zero_mul, mul_zero, compare_eq_iff_eq.mpr rfl]
      rfl
    · have hdigits : (0 : ℝ) < n * 2 ^ ((j : ℤ) - 149) := by positivity
      rw [hfinite']
      cases other with
      | negative =>
          rw [factor, compare_gt_iff_gt.mpr (show (0 : ℝ) > _ by linarith)]
          rfl
      | positive =>
          rw [factor, compare_lt_iff_lt.mpr (by linarith)]
          rfl
  · have hdigits : (0 : ℝ) < m * 2 ^ ((k : ℤ) - 149) := by positivity
    rw [hfinite]
    rcases hv.shape with ⟨rfl, hzero'⟩ | ⟨hn, hfinite'⟩
    · rw [hzero', Nat.cast_zero, zero_mul, mul_zero]
      cases sign with
      | negative =>
          rw [factor, compare_lt_iff_lt.mpr (by linarith)]
          rfl
      | positive =>
          rw [factor, compare_gt_iff_gt.mpr (show _ > (0 : ℝ) by linarith)]
          rfl
    · have hdigits' : (0 : ℝ) < n * 2 ^ ((j : ℤ) - 149) := by positivity
      rw [hfinite']
      cases sign with
      | negative =>
          cases other with
          | negative =>
              rw [factor, neg_one_mul, neg_one_mul, compare_neg_neg, hreverse]
              refine congrArg some ?_
              rw [Ordering.swap_then, ← Std.OrientedCmp.eq_swap, ← Std.OrientedCmp.eq_swap]
          | positive =>
              rw [factor, factor, compare_lt_iff_lt.mpr (by linarith)]
              rfl
      | positive =>
          cases other with
          | negative =>
              rw [factor, factor, compare_gt_iff_gt.mpr (show _ > _ by linarith)]
              rfl
          | positive =>
              rw [factor, one_mul, one_mul, hcompare]
              rfl

section Order

variable (hx : x.isFinite = true) (hy : y.isFinite = true)

include hx hy

theorem lt_iff_value : x < y ↔ value x < value y := by
  rw [lt_iff, UnpackedFloat.lt, compare_eq hx hy, ← compare_lt_iff_lt]
  cases compare (value x) (value y) <;> decide

theorem le_iff_value : x ≤ y ↔ value x ≤ value y := by
  rw [le_iff, UnpackedFloat.le, compare_eq hx hy, ← compare_le_iff_le, Option.any_some]
  cases compare (value x) (value y) <;> decide

end Order

/-! ## Ranges -/

/-- Cutting a finite number to a range cuts the number that it stands for. -/
theorem value_clamp {low high : Float32} (hx : x.isFinite = true) (hlow : low.isFinite = true)
    (hhigh : high.isFinite = true) :
    (clamp x low high).isFinite = true ∧
      value (clamp x low high) = min (max (value x) (value low)) (value high) := by
  have hraised : (if x < low then low else x).isFinite = true ∧
      value (if x < low then low else x) = max (value x) (value low) := by
    split
    · rename_i hlt
      exact ⟨hlow, (max_eq_right ((lt_iff_value hx hlow).mp hlt).le).symm⟩
    · rename_i hge
      exact ⟨hx, (max_eq_left (not_lt.mp (mt (lt_iff_value hx hlow).mpr hge))).symm⟩
  rw [clamp, ← hraised.2]
  generalize (if x < low then low else x) = raised at hraised
  split
  · rename_i hlt
    exact ⟨hhigh, (min_eq_right ((lt_iff_value hhigh hraised.1).mp hlt).le).symm⟩
  · rename_i hge
    exact ⟨hraised.1, (min_eq_left (not_lt.mp (mt (lt_iff_value hhigh hraised.1).mpr hge))).symm⟩

theorem finite_of_le {z : Float32} (hx : x.isFinite = true) (hz : z.isFinite = true) (hle : x ≤ y)
    (hnot : ¬z ≤ y) :
    y.isFinite = true := by
  rw [le_iff] at hle hnot
  rw [isFinite_eq] at *
  generalize x.toModel.unpack = u at *
  generalize y.toModel.unpack = v at *
  generalize z.toModel.unpack = w at *
  cases v with
  | zero | finite => rfl
  | notANumber => cases u <;> cases hle
  | infinity sign =>
      cases sign with
      | negative =>
          cases u with
          | notANumber | infinity => cases hx
          | zero | finite => cases hle
      | positive =>
          cases w with
          | notANumber | infinity => cases hz
          | zero | finite => exact absurd rfl hnot

end Volley.Single
