import Mathlib
import Volley.Proofs.Number.Nearest

/-!
# Single precision as whole numbers

A single-precision number that is finite and not negative is a significand counted some power of two
times, in units of the least positive one. Its bits, read as a number, hold the power above the
significand, so they are ordered as the numbers are.
-/

namespace Volley.Single

open Float.Model Float.Model.UnpackedFloat
open Volley.Nearest

/-! ## Shifting significands -/

theorem shiftRight_succ (em : ExtendedMantissa) (n : Nat) :
    em >>> (n + 1) = (em >>> n).shiftRightOne := rfl

/-- The two residual bits say how the remainder of the division by a power of
two compares to its half. -/
theorem shiftRight_exact (m n : Nat) :
    ExtendedMantissa.ofMantissaAndAccuracy m .exact >>> n =
      ⟨m / 2 ^ n, decide (2 ^ n ≤ 2 * (m % 2 ^ n)),
        decide (m % 2 ^ n ≠ 0 ∧ 2 * (m % 2 ^ n) ≠ 2 ^ n)⟩ := by
  induction n with
  | zero =>
      change ExtendedMantissa.ofMantissaAndAccuracy m .exact = _
      simp [ExtendedMantissa.ofMantissaAndAccuracy, Nat.mod_one]
  | succ n ih =>
      have hpos := Nat.two_pow_pos n
      have hlt := Nat.mod_lt m hpos
      have hdigit := Nat.mod_two_eq_zero_or_one (m / 2 ^ n)
      rw [shiftRight_succ, ih, ExtendedMantissa.shiftRightOne, Nat.mod_pow_succ, Nat.pow_succ,
        ← Nat.div_div_eq_div_mul]
      generalize m % 2 ^ n = r at hlt
      generalize 2 ^ n = d at hlt hpos hdigit
      -- The digit that drops out becomes the half, and the half from before joins what is below it.
      rcases hdigit with hdigit | hdigit
      · rw [hdigit, ExtendedMantissa.mk.injEq]
        refine ⟨rfl, ?_, ?_⟩
        · simp; omega
        · rw [← Bool.decide_or, decide_eq_decide]; omega
      · rw [hdigit, ExtendedMantissa.mk.injEq]
        refine ⟨rfl, ?_, ?_⟩
        · simp; omega
        · rw [← Bool.decide_or, decide_eq_decide]; omega

theorem roundedMantissa_shiftRight (m n : Nat) :
    (ExtendedMantissa.ofMantissaAndAccuracy m .exact >>> n).roundedMantissa =
      roundedQuotient (m / 2 ^ n) (m % 2 ^ n) (2 ^ n) := by
  rw [shiftRight_exact, ExtendedMantissa.roundedMantissa, roundedQuotient]
  generalize m / 2 ^ n = q
  generalize m % 2 ^ n = r
  have hpos := Nat.two_pow_pos n
  generalize 2 ^ n = d at hpos
  by_cases hround : d ≤ 2 * r
  · by_cases hsticky : r ≠ 0 ∧ 2 * r ≠ d
    · rw [if_neg (by omega), if_pos (by omega), decide_eq_true hround, decide_eq_true hsticky]
      rfl
    · rw [if_neg (by omega), if_neg (by omega), decide_eq_true hround, decide_eq_false hsticky]
      rfl
  · rw [if_pos (by omega), decide_eq_false hround]
    cases decide (r ≠ 0 ∧ 2 * r ≠ d) <;> rfl

/-! ## Rounding -/

theorem roundedQuotient_scale {q r d c : Nat} (hc : 0 < c) :
    roundedQuotient q (r * c) (d * c) = roundedQuotient q r d := by
  have hlow : 2 * (r * c) < d * c ↔ 2 * r < d := by
    rw [← Nat.mul_assoc]
    exact Nat.mul_lt_mul_right hc
  have hhigh : d * c < 2 * (r * c) ↔ d < 2 * r := by
    rw [← Nat.mul_assoc]
    exact Nat.mul_lt_mul_right hc
  simp only [roundedQuotient, hlow, hhigh]

theorem log2_mul_two_pow {m : Nat} (hm : 0 < m) (k : Nat) : (m * 2 ^ k).log2 = m.log2 + k := by
  have hpos : m * 2 ^ k ≠ 0 := (Nat.mul_pos hm (Nat.two_pow_pos k)).ne'
  obtain ⟨hlow, hhigh⟩ := (Nat.log2_eq_iff hm.ne').mp rfl
  refine (Nat.log2_eq_iff hpos).mpr ⟨?_, ?_⟩
  · rw [Nat.pow_add]
    exact Nat.mul_le_mul_right _ hlow
  · rw [show m.log2 + k + 1 = m.log2 + 1 + k by omega, Nat.pow_add]
    exact Nat.mul_lt_mul_of_pos_right hhigh (Nat.two_pow_pos k)

theorem targetExponent_eq {m : Nat} (hm : 0 < m) (k : Nat) :
    Format.binary32.targetExponent (totalExponent m (k - 149)) =
      (excess (m * 2 ^ k) : Int) - 149 := by
  have htarget : Format.binary32.targetExponent (totalExponent m (k - 149)) =
      max ((m.log2 : Int) + 1 + (k - 149) - 24) (-149) := rfl
  rw [htarget, excess, log2_mul_two_pow hm]
  omega

theorem shiftToTargetExponent_eq {m k : Nat} (hm : 0 < m) (hk : k ≤ excess (m * 2 ^ k)) :
    shiftToTargetExponent Format.binary32 m (k - 149) .exact =
      (ExtendedMantissa.ofMantissaAndAccuracy m .exact >>> (excess (m * 2 ^ k) - k),
        (excess (m * 2 ^ k) : Int) - 149) := by
  rw [shiftToTargetExponent, targetExponent_eq hm, shiftToExponent]
  have hshift : ((excess (m * 2 ^ k) : Int) - 149 - (k - 149)).toNat = excess (m * 2 ^ k) - k := by
    omega
  rw [hshift]
  refine Prod.ext rfl ?_
  simp only
  omega

/-- The quotient left after the shift is the one that rounding starts from,
since both drop the same digits. -/
theorem significand_mul_two_pow {m k : Nat} (hk : k ≤ excess (m * 2 ^ k)) :
    significand (m * 2 ^ k) =
      roundedQuotient (m / 2 ^ (excess (m * 2 ^ k) - k)) (m % 2 ^ (excess (m * 2 ^ k) - k))
        (2 ^ (excess (m * 2 ^ k) - k)) := by
  rw [significand]
  generalize excess (m * 2 ^ k) = s at hk
  obtain ⟨gap, rfl⟩ := Nat.exists_eq_add_of_le hk
  rw [Nat.add_sub_cancel_left, Nat.add_comm k gap, Nat.pow_add,
    Nat.mul_div_mul_right _ _ (Nat.two_pow_pos k),
    Nat.mul_mod_mul_right, roundedQuotient_scale (Nat.two_pow_pos k)]

/-- An unpacked number that is not negative, in the form in which it is packed. -/
def IsUnpacked (x : UnpackedFloat) (m k : Nat) : Prop :=
  Canonical m k ∧ ∃ hm, x = .finite .positive m (k - 149) hm

theorem shiftToTargetExponent_canonical {m k : Nat} (hm : 0 < m) (hcanonical : Canonical m k) :
    shiftToTargetExponent Format.binary32 m (k - 149) .exact =
      (ExtendedMantissa.ofMantissaAndAccuracy m .exact, (k : Int) - 149) := by
  have hexcess := hcanonical.excess_eq
  rw [shiftToTargetExponent_eq hm (by omega), hexcess, Nat.sub_self]
  rfl

theorem shiftToTargetExponent_carry (k : Nat) :
    shiftToTargetExponent Format.binary32 (2 ^ 24) (k - 149) .exact =
      (ExtendedMantissa.ofMantissaAndAccuracy (2 ^ 24) .exact >>> 1,
        ((k + 1 : Nat) : Int) - 149) := by
  have hexcess : excess (2 ^ 24 * 2 ^ k) = k + 1 := by
    have hsplit : 2 ^ 24 * 2 ^ k = 2 ^ 23 * 2 ^ (k + 1) + 0 := by
      rw [Nat.pow_succ]
      omega
    rw [hsplit]
    exact excess_eq (by omega) (by omega) (Nat.two_pow_pos _)
  rw [shiftToTargetExponent_eq (by omega) (by omega), hexcess, Nat.add_sub_cancel_left]

theorem roundWithAccuracy_isUnpacked {m k : Nat} (hm : 0 < m) (hk : k ≤ excess (m * 2 ^ k)) :
    ∃ q j, IsUnpacked (roundWithAccuracy Format.binary32 .positive m (k - 149) .exact) q j ∧
      q * 2 ^ j = nearest (m * 2 ^ k) := by
  have hpos : 0 < m * 2 ^ k := Nat.mul_pos hm (Nat.two_pow_pos k)
  have hround := roundedMantissa_shiftRight m (excess (m * 2 ^ k) - k)
  rw [← significand_mul_two_pow hk] at hround
  obtain ⟨hq, hcanonical | hcarry⟩ := significand_canonical hpos
  · refine ⟨significand (m * 2 ^ k), excess (m * 2 ^ k), ⟨hcanonical, hq, ?_⟩, rfl⟩
    rw [roundWithAccuracy, shiftToTargetExponent_eq hm hk]
    dsimp only
    rw [hround, shiftToTargetExponent_canonical hq hcanonical]
    exact dif_neg hq.ne'
  · refine ⟨2 ^ 23, excess (m * 2 ^ k) + 1, ⟨⟨by omega, Or.inr le_rfl⟩, by omega, ?_⟩, ?_⟩
    · rw [roundWithAccuracy, shiftToTargetExponent_eq hm hk]
      dsimp only
      rw [hround, hcarry, shiftToTargetExponent_carry, shiftRight_exact]
      exact dif_neg (show ¬2 ^ 24 / 2 ^ 1 = 0 by decide)
    · rw [nearest, hcarry, Nat.pow_succ]
      omega

theorem round_isUnpacked {m : Nat} (hm : 0 < m) (k : Nat) :
    ∃ q j, IsUnpacked (UnpackedFloat.round Format.binary32 .positive m (k - 149)) q j ∧
      q * 2 ^ j = nearest (m * 2 ^ k) := by
  rw [UnpackedFloat.round, targetExponent_eq hm, decreaseExponent]
  by_cases hk : k ≤ excess (m * 2 ^ k)
  · have hshift : ((k : Int) - 149 - ((excess (m * 2 ^ k) : Int) - 149)).toNat = 0 := by omega
    rw [hshift]
    dsimp only
    rw [Nat.shiftLeft_zero, Int.natCast_zero, Int.sub_zero]
    exact roundWithAccuracy_isUnpacked hm hk
  · obtain ⟨gap, hgap⟩ := Nat.exists_eq_add_of_le (Nat.le_of_not_le hk)
    have hshift : ((k : Int) - 149 - ((excess (m * 2 ^ k) : Int) - 149)).toNat = gap := by omega
    have hexponent : (k : Int) - 149 - gap = (excess (m * 2 ^ k) : Int) - 149 := by omega
    have hsame : m <<< gap * 2 ^ excess (m * 2 ^ k) = m * 2 ^ k := by
      rw [Nat.shiftLeft_eq, Nat.mul_assoc, ← Nat.pow_add, Nat.add_comm gap, ← hgap]
    have hpos : 0 < m <<< gap := by
      rw [Nat.shiftLeft_eq]
      exact Nat.mul_pos hm (Nat.two_pow_pos gap)
    have hrounded := roundWithAccuracy_isUnpacked hpos (k := excess (m * 2 ^ k)) (by rw [hsame])
    rw [hsame] at hrounded
    rw [hshift]
    dsimp only
    rw [hexponent]
    exact hrounded

/-! ## Bits -/

theorem toNat_append {v w : Nat} (high : BitVec v) (low : BitVec w) :
    (high ++ low).toNat = high.toNat * 2 ^ w + low.toNat := by
  rw [BitVec.toNat_append, ← Nat.shiftLeft_add_eq_or_of_lt low.isLt, Nat.shiftLeft_eq]

theorem toNat_packComponents (exponent : BitVec 8) (mantissa : BitVec 23) :
    (packComponents Format.binary32 .positive exponent mantissa).toNat =
      exponent.toNat * 2 ^ 23 + mantissa.toNat := by
  have hhigh : (0#1 ++ exponent).toNat = exponent.toNat := by
    rw [toNat_append, BitVec.toNat_zero, Nat.zero_mul, Nat.zero_add]
  exact (toNat_append (0#1 ++ exponent) mantissa).trans (by rw [hhigh])

theorem toNat_pack {x : UnpackedFloat} {m k : Nat} (hx : IsUnpacked x m k) (hk : k < 254) :
    (pack Format.binary32 x).toNat = k * 2 ^ 23 + m := by
  obtain ⟨⟨hm, hleast⟩, hpos, rfl⟩ := hx
  have hbiased : ((k : Int) - 149 + (127 : Nat) + (23 : Nat)).toNat = k + 1 := by omega
  change (if 2 ^ 8 ≤ ((k : Int) - 149 + (127 : Nat) + (23 : Nat)).toNat +
    1 then packedInfinity Format.binary32 .positive
    else if m.log2 + 1 = 24 then
      packComponents Format.binary32 .positive
        (BitVec.ofNat 8 ((k : Int) - 149 + (127 : Nat) + (23 : Nat)).toNat) (BitVec.ofNat 23 m)
    else packComponents Format.binary32 .positive (BitVec.ofNat 8 0) (BitVec.ofNat 23 m)).toNat = _
  rw [hbiased, if_neg (by omega)]
  by_cases hnormal : 2 ^ 23 ≤ m
  · have hlog : m.log2 = 23 := (Nat.log2_eq_iff hpos.ne').mpr ⟨hnormal, hm⟩
    rw [hlog, if_pos rfl, toNat_packComponents, BitVec.toNat_ofNat, BitVec.toNat_ofNat]
    omega
  · have hlog : m.log2 < 23 := (Nat.log2_lt hpos.ne').mpr (by omega)
    rw [if_neg (by omega), toNat_packComponents, BitVec.toNat_ofNat, BitVec.toNat_ofNat]
    omega

theorem toNat_unpackExponent (b : BitVec 32) :
    (unpackExponent b : BitVec Format.binary32.exponentBits).toNat = b.toNat / 2 ^ 23 % 2 ^ 8 := by
  rw [unpackExponent, BitVec.toNat_cast, BitVec.extractLsb_toNat, Nat.shiftRight_eq_div_pow]
  rfl

theorem toNat_unpackMantissa (b : BitVec 32) :
    (unpackMantissa b : BitVec Format.binary32.mantissaBitsWithoutImplicit).toNat =
      b.toNat % 2 ^ 23 := by
  rw [unpackMantissa, BitVec.toNat_cast, BitVec.extractLsb_toNat, Nat.shiftRight_zero]
  rfl

theorem toNat_unpackSign (b : BitVec 32) :
    (@unpackSign Format.binary32 b).toNat = b.toNat / 2 ^ 31 % 2 := by
  rw [unpackSign, BitVec.toNat_cast, BitVec.extractLsb_toNat, Nat.shiftRight_eq_div_pow]
  rfl

theorem unpackExponent_eq_ones_iff (b : BitVec 32) :
    (unpackExponent b : BitVec Format.binary32.exponentBits) = -1#_ ↔
      b.toNat / 2 ^ 23 % 2 ^ 8 = 255 := by
  rw [← toNat_unpackExponent, ← BitVec.toNat_inj]
  rfl

theorem unpackExponent_eq_zero_iff (b : BitVec 32) :
    (unpackExponent b : BitVec Format.binary32.exponentBits) = 0#_ ↔
      b.toNat / 2 ^ 23 % 2 ^ 8 = 0 := by
  rw [← toNat_unpackExponent, ← BitVec.toNat_inj]
  rfl

theorem unpackMantissa_eq_zero_iff (b : BitVec 32) :
    (unpackMantissa b : BitVec Format.binary32.mantissaBitsWithoutImplicit) = 0#_ ↔
      b.toNat % 2 ^ 23 = 0 := by
  rw [← toNat_unpackMantissa, ← BitVec.toNat_inj]
  rfl

theorem sign_positive {b : BitVec 32} (hb : b.toNat < 2 ^ 31) :
    Sign.ofBitVec (@unpackSign Format.binary32 b) = .positive := by
  rw [Sign.ofBitVec, if_pos]
  rw [← BitVec.toNat_inj, toNat_unpackSign, Nat.div_eq_of_lt hb]
  rfl

theorem sign_negative {b : BitVec 32} (hb : 2 ^ 31 ≤ b.toNat) :
    Sign.ofBitVec (@unpackSign Format.binary32 b) = .negative := by
  have hlt := b.isLt
  rw [Sign.ofBitVec, if_neg]
  rw [← BitVec.toNat_inj, toNat_unpackSign]
  change ¬b.toNat / 2 ^ 31 % 2 = 0
  omega

theorem unpack_zero {b : BitVec 32} (hb : b.toNat = 0) :
    unpack Format.binary32 b = .zero .positive := by
  have hones := mt (unpackExponent_eq_ones_iff b).mp (by omega)
  have hzero := (unpackExponent_eq_zero_iff b).mpr (by omega)
  have hmantissa := (unpackMantissa_eq_zero_iff b).mpr (by omega)
  rw [UnpackedFloat.unpack]
  dsimp only
  rw [if_neg hones, if_pos hzero, dif_pos hmantissa, sign_positive (by omega)]

theorem unpack_subnormal {b : BitVec 32} (hpos : 0 < b.toNat) (hb : b.toNat < 2 ^ 23) :
    IsUnpacked (unpack Format.binary32 b) b.toNat 0 := by
  refine ⟨⟨by omega, Or.inl rfl⟩, hpos, ?_⟩
  have hones := mt (unpackExponent_eq_ones_iff b).mp (by omega)
  have hzero := (unpackExponent_eq_zero_iff b).mpr (by omega)
  have hmantissa := mt (unpackMantissa_eq_zero_iff b).mp (by omega)
  rw [UnpackedFloat.unpack]
  dsimp only
  rw [if_neg hones, if_pos hzero, dif_neg hmantissa, sign_positive (by omega)]
  congr 1
  · rw [toNat_unpackMantissa, Nat.mod_eq_of_lt hb]
  · rw [toNat_unpackExponent]
    change ((b.toNat / 2 ^ 23 % 2 ^ 8 : Nat) : Int) - ((127 : Nat) + (23 : Nat)) + 1 =
      ((0 : Nat) : Int) - 149
    omega

theorem unpack_normal {b : BitVec 32} (hlow : 2 ^ 23 ≤ b.toNat) (hhigh : b.toNat < 255 * 2 ^ 23) :
    IsUnpacked (unpack Format.binary32 b) (2 ^ 23 + b.toNat % 2 ^ 23) (b.toNat / 2 ^ 23 - 1) := by
  refine ⟨⟨by omega, Or.inr (by omega)⟩, by omega, ?_⟩
  have hones := mt (unpackExponent_eq_ones_iff b).mp (by omega)
  have hzero := mt (unpackExponent_eq_zero_iff b).mp (by omega)
  rw [UnpackedFloat.unpack]
  dsimp only
  rw [if_neg hones, if_neg hzero, sign_positive (by omega)]
  congr 1
  · refine (toNat_append 1#1 _).trans ?_
    rw [toNat_unpackMantissa]
    rfl
  · rw [toNat_unpackExponent]
    change ((b.toNat / 2 ^ 23 % 2 ^ 8 : Nat) : Int) - ((127 : Nat) + (23 : Nat)) =
      ((b.toNat / 2 ^ 23 - 1 : Nat) : Int) - 149
    omega

theorem unpack_infinity {b : BitVec 32} (hb : b.toNat = 255 * 2 ^ 23) :
    unpack Format.binary32 b = .infinity .positive := by
  have hones := (unpackExponent_eq_ones_iff b).mpr (by omega)
  have hmantissa := (unpackMantissa_eq_zero_iff b).mpr (by omega)
  rw [UnpackedFloat.unpack]
  dsimp only
  rw [if_pos hones, if_pos hmantissa, sign_positive (by omega)]

/-- A number that is finite and not negative, as a significand counted a power of two times. -/
structure Holds (x : Float32) (m k : Nat) : Prop where
  canonical : Canonical m k
  fits : k < 254
  bits : x.toBits.toNat = k * 2 ^ 23 + m

theorem holds_zero : Holds 0 0 0 :=
  ⟨⟨by omega, .inl rfl⟩, by omega, by decide +kernel⟩

theorem exists_holds {x : Float32} (hx : x.toBits.toNat < 255 * 2 ^ 23) : ∃ m k, Holds x m k := by
  by_cases hsmall : x.toBits.toNat < 2 ^ 23
  · exact ⟨x.toBits.toNat, 0, ⟨by omega, Or.inl rfl⟩, by omega, by omega⟩
  · exact ⟨2 ^ 23 + x.toBits.toNat % 2 ^ 23, x.toBits.toNat / 2 ^ 23 - 1,
      ⟨by omega, Or.inr (by omega)⟩, by omega,
      by omega⟩

theorem Holds.isUnpacked {x : Float32} {m k : Nat} (hx : Holds x m k) (hm : 0 < m) :
    IsUnpacked x.toModel.unpack m k := by
  obtain ⟨⟨hdigits, hleast⟩, hk, hbits⟩ := hx
  change x.toModel.toBits.toBitVec.toNat = k * 2 ^ 23 + m at hbits
  by_cases hsmall : m < 2 ^ 23
  · obtain rfl : k = 0 := by omega
    have hunpacked := unpack_subnormal (b := x.toModel.toBits.toBitVec) (by omega) (by omega)
    rwa [hbits, Nat.zero_mul, Nat.zero_add] at hunpacked
  · have hunpacked := unpack_normal (b := x.toModel.toBits.toBitVec) (by omega) (by omega)
    rw [hbits] at hunpacked
    have hfraction : 2 ^ 23 + (k * 2 ^ 23 + m) % 2 ^ 23 = m := by omega
    have hexponent : (k * 2 ^ 23 + m) / 2 ^ 23 - 1 = k := by omega
    rwa [hfraction, hexponent] at hunpacked

theorem Holds.unpack_zero {x : Float32} {k : Nat}
    (hx : Holds x 0 k) : x.toModel.unpack = .zero .positive := by
  obtain ⟨⟨-, hleast⟩, -, hbits⟩ := hx
  apply Single.unpack_zero
  change x.toBits.toNat = 0
  omega

/-- Zero counts the power zero. -/
theorem Holds.power_eq_zero {x : Float32} {k : Nat} (hx : Holds x 0 k) : k = 0 := by
  have hleast := hx.canonical.2
  omega

theorem Holds.unpack_cases {x : Float32} {m k : Nat} (hx : Holds x m k) :
    x.toModel.unpack = .zero .positive ∨
      ∃ q e, ∃ hq : 0 < q, x.toModel.unpack = .finite .positive q e hq := by
  rcases Nat.eq_zero_or_pos m with rfl | hm
  · exact Or.inl hx.unpack_zero
  · obtain ⟨-, hpos, hunpacked⟩ := hx.isUnpacked hm
    exact Or.inr ⟨_, _, _, hunpacked⟩

theorem holds_of_isUnpacked {x : Float32} {u : UnpackedFloat} {m k : Nat} (hu : IsUnpacked u m k)
    (hk : k < 254) (hx : x.toModel = .pack u) : Holds x m k := by
  refine ⟨hu.1, hk, ?_⟩
  change x.toModel.toBits.toBitVec.toNat = _
  rw [hx]
  exact toNat_pack hu hk

/-! ## Order -/

variable {x y : Float32} {m k n j : Nat}

theorem le_iff (x y : Float32) : x ≤ y ↔ x.toModel.unpack.le y.toModel.unpack = true := by
  change decide (x.toModel.unpack.le y.toModel.unpack = true) = true ↔ _
  rw [decide_eq_true_iff]

theorem lt_iff (x y : Float32) : x < y ↔ x.toModel.unpack.lt y.toModel.unpack = true := by
  change decide (x.toModel.unpack.lt y.toModel.unpack = true) = true ↔ _
  rw [decide_eq_true_iff]

theorem compare_isUnpacked {u v : UnpackedFloat} (hu : IsUnpacked u m k) (hv : IsUnpacked v n j) :
    u.compare v = some (compare (k * 2 ^ 23 + m) (j * 2 ^ 23 + n)) := by
  obtain ⟨⟨hm, hmleast⟩, hmpos, rfl⟩ := hu
  obtain ⟨⟨hn, hnleast⟩, hnpos, rfl⟩ := hv
  change some ((compare ((k : Int) - 149) ((j : Int) - 149)).then (compare m n)) = _
  rw [Option.some_inj]
  rcases Nat.lt_trichotomy k j with hlt | rfl | hgt
  · rw [compare_lt_iff_lt.mpr (show (k : Int) - 149 < j - 149 by omega), Ordering.lt_then,
      compare_lt_iff_lt.mpr (by omega)]
  · rw [compare_eq_iff_eq.mpr rfl, Ordering.eq_then]
    rcases Nat.lt_trichotomy m n with hlt | rfl | hgt
    · rw [compare_lt_iff_lt.mpr hlt, compare_lt_iff_lt.mpr (by omega)]
    · rw [compare_eq_iff_eq.mpr rfl, compare_eq_iff_eq.mpr rfl]
    · rw [compare_gt_iff_gt.mpr hgt, compare_gt_iff_gt.mpr (by omega)]
  · rw [compare_gt_iff_gt.mpr (show (j : Int) - 149 < k - 149 by omega), Ordering.gt_then,
      compare_gt_iff_gt.mpr (by omega)]

theorem Holds.compare_eq (hx : Holds x m k) (hy : Holds y n j) :
    x.toModel.unpack.compare y.toModel.unpack = some (compare x.toBits.toNat y.toBits.toNat) := by
  rw [hx.bits, hy.bits]
  rcases Nat.eq_zero_or_pos m with rfl | hm
  · rw [hx.unpack_zero, hx.power_eq_zero]
    rcases Nat.eq_zero_or_pos n with rfl | hn
    · rw [hy.unpack_zero, hy.power_eq_zero]
      rfl
    · obtain ⟨-, hpos, hunpacked⟩ := hy.isUnpacked hn
      rw [hunpacked, compare_lt_iff_lt.mpr (by omega)]
      rfl
  · rcases Nat.eq_zero_or_pos n with rfl | hn
    · obtain ⟨-, hpos, hunpacked⟩ := hx.isUnpacked hm
      rw [hy.unpack_zero, hy.power_eq_zero, hunpacked, compare_gt_iff_gt.mpr (by omega)]
      rfl
    · exact compare_isUnpacked (hx.isUnpacked hm) (hy.isUnpacked hn)

theorem Holds.lt_iff_bits (hx : Holds x m k) (hy : Holds y n j) : x < y ↔ x.toBits < y.toBits := by
  rw [lt_iff, UnpackedFloat.lt, hx.compare_eq hy, UInt32.lt_iff_toNat_lt, ← compare_lt_iff_lt]
  simp

theorem Holds.lt_iff_value (hx : Holds x m k)
    (hy : Holds y n j) : x < y ↔ m * 2 ^ k < n * 2 ^ j := by
  rw [hx.lt_iff_bits hy, hy.canonical.mul_lt_mul_iff hx.canonical, UInt32.lt_iff_toNat_lt,
    hx.bits, hy.bits]

theorem Holds.le_iff_value (hx : Holds x m k)
    (hy : Holds y n j) : x ≤ y ↔ m * 2 ^ k ≤ n * 2 ^ j := by
  rw [← not_lt, hx.canonical.mul_lt_mul_iff hy.canonical, le_iff, UnpackedFloat.le,
    hx.compare_eq hy, hx.bits, hy.bits,
    Option.any_some, Nat.isLE_compare, not_lt]

/-! ## Subtraction -/

theorem toModel_sub (x y : Float32) :
    (x - y).toModel = .pack (sub Format.binary32 x.toModel.unpack y.toModel.unpack) := rfl

theorem sub_finite (hm : 0 < m) (hn : 0 < n) (k j : Nat) :
    sub Format.binary32 (.finite .positive m (k - 149) hm) (.finite .positive n (j - 149) hn) =
      UnpackedFloat.normalize Format.binary32 ((m * 2 ^ (k - min k j) : Nat) -
        (n * 2 ^ (j - min k j) : Nat) : Int)
        ((min k j : Nat) - 149) .positive := by
  have hleast : min ((k : Int) - 149) (j - 149) = (min k j : Nat) - 149 := by omega
  have hfirst : ((k : Int) - 149 - ((min k j : Nat) - 149)).toNat = k - min k j := by omega
  have hsecond : ((j : Int) - 149 - ((min k j : Nat) - 149)).toNat = j - min k j := by omega
  rw [UnpackedFloat.sub]
  dsimp only [decreaseExponent, Sign.apply]
  rw [hleast, hfirst, hsecond, Nat.shiftLeft_eq, Nat.shiftLeft_eq]

/-- The exponents are brought to the lesser one without loss, so only the difference is rounded. -/
theorem Holds.sub (hx : Holds x m k) (hy : Holds y n j) (hn : 0 < n) (hle : n * 2 ^ j ≤ m * 2 ^ k) :
    ∃ q i, Holds (x - y) q i ∧ q * 2 ^ i = nearest (m * 2 ^ k - n * 2 ^ j) := by
  have hm : 0 < m := by
    refine Nat.pos_of_mul_pos_right (Nat.lt_of_lt_of_le ?_ hle)
    exact Nat.mul_pos hn (Nat.two_pow_pos j)
  obtain ⟨-, hmpos, hunpackedX⟩ := hx.isUnpacked hm
  obtain ⟨-, hnpos, hunpackedY⟩ := hy.isUnpacked hn
  have hmodel := toModel_sub x y
  rw [hunpackedX, hunpackedY, sub_finite] at hmodel
  generalize hi : min k j = i at hmodel
  have hfirst : m * 2 ^ (k - i) * 2 ^ i = m * 2 ^ k := by
    rw [Nat.mul_assoc, ← Nat.pow_add, Nat.sub_add_cancel (by omega)]
  have hsecond : n * 2 ^ (j - i) * 2 ^ i = n * 2 ^ j := by
    rw [Nat.mul_assoc, ← Nat.pow_add, Nat.sub_add_cancel (by omega)]
  have hdifference : (m * 2 ^ (k - i) - n * 2 ^ (j - i)) * 2 ^ i = m * 2 ^ k - n * 2 ^ j := by
    rw [Nat.sub_mul, hfirst, hsecond]
  have horder : n * 2 ^ (j - i) ≤ m * 2 ^ (k - i) := by
    rw [← hfirst, ← hsecond] at hle
    exact Nat.le_of_mul_le_mul_right hle (Nat.two_pow_pos i)
  rw [← hdifference]
  rw [← Int.ofNat_sub horder] at hmodel
  generalize hd : m * 2 ^ (k - i) - n * 2 ^ (j - i) = d at hmodel hdifference
  rcases Nat.eq_zero_or_pos d with rfl | hpos
  · refine ⟨0, 0, ⟨⟨by omega, Or.inl rfl⟩, by omega, ?_⟩, ?_⟩
    · change (x - y).toModel.toBits.toBitVec.toNat = _
      rw [hmodel]
      rfl
    · rw [Nat.zero_mul, Nat.zero_mul]
      exact (nearest_eq_self (by omega)).symm
  · obtain ⟨q, p, hrounded, hvalue⟩ := round_isUnpacked hpos i
    have hnormal : UnpackedFloat.normalize Format.binary32 (d : Int) ((i : Int) - 149) .positive =
        UnpackedFloat.round Format.binary32 .positive d (i - 149) := by
      rw [UnpackedFloat.normalize, compare_gt_iff_gt.mpr (show (0 : Int) < d by omega)]
      rfl
    rw [hnormal] at hmodel
    have hbelow : q * 2 ^ p ≤ m * 2 ^ k := by
      rw [hvalue]
      exact nearest_le hx.canonical.1 (by omega)
    refine ⟨q, p, holds_of_isUnpacked hrounded ?_ hmodel, hvalue⟩
    by_contra hlarge
    have hfits := hx.fits
    have hcode : k * 2 ^ 23 + m < p * 2 ^ 23 + q := by
      have hdigits := hx.canonical.1
      have hleast := hrounded.1.2
      omega
    exact absurd (hrounded.1.mul_lt_mul hx.canonical hcode) (Nat.not_lt.mpr hbelow)

/-! ## Beyond the finite numbers -/

def IsInfinite (x : Float32) : Prop :=
  x.toBits.toNat = 255 * 2 ^ 23

theorem IsInfinite.unpack_eq (hx : IsInfinite x) : x.toModel.unpack = .infinity .positive :=
  unpack_infinity hx

theorem eq_of_toNat_toBits (hbits : x.toBits.toNat = y.toBits.toNat) : x = y := by
  obtain ⟨⟨xbits, hvalidX⟩⟩ := x
  obtain ⟨⟨ybits, hvalidY⟩⟩ := y
  obtain rfl : xbits = ybits := UInt32.toNat_inj.mp hbits
  rfl

theorem IsInfinite.sub (hx : IsInfinite x) (hy : Holds y n j) : x - y = x := by
  apply eq_of_toNat_toBits
  have hinfinity : Float.Model.UnpackedFloat.sub Format.binary32 x.toModel.unpack y.toModel.unpack =
      .infinity .positive := by
    rw [hx.unpack_eq]
    rcases hy.unpack_cases with hzero | ⟨q, e, hq, hfinite⟩
    · rw [hzero]
      rfl
    · rw [hfinite]
      rfl
  change (x - y).toModel.toBits.toBitVec.toNat = _
  rw [toModel_sub, hinfinity, hx]
  rfl

theorem IsInfinite.le (hy : IsInfinite y) (hx : Holds x m k) : x ≤ y := by
  rw [le_iff, UnpackedFloat.le, hy.unpack_eq]
  rcases hx.unpack_cases with hzero | ⟨q, e, hq, hfinite⟩
  · rw [hzero]
    rfl
  · rw [hfinite]
    rfl

theorem IsInfinite.not_lt_self (hx : IsInfinite x) : ¬x < x := by
  rw [lt_iff, UnpackedFloat.lt, hx.unpack_eq]
  decide

/-- Above the infinity there are only the bits of negative numbers and of what is no number. -/
theorem unpack_beyond {b : BitVec 32} (hb : 255 * 2 ^ 23 < b.toNat) :
    unpack Format.binary32 b = .notANumber ∨ unpack Format.binary32 b = .infinity .negative ∨
      unpack Format.binary32 b = .zero .negative ∨
        ∃ m e, ∃ hm : 0 < m, unpack Format.binary32 b = .finite .negative m e hm := by
  rw [UnpackedFloat.unpack]
  dsimp only
  by_cases hnegative : 2 ^ 31 ≤ b.toNat
  · rw [sign_negative hnegative]
    split
    · split
      · exact Or.inr (Or.inl rfl)
      · exact Or.inl rfl
    · split
      · split
        · exact Or.inr (Or.inr (Or.inl rfl))
        · rename_i hmantissa
          have hpos : 0 < (unpackMantissa b : BitVec
              Format.binary32.mantissaBitsWithoutImplicit).toNat := by
            rw [toNat_unpackMantissa]
            exact Nat.pos_of_ne_zero (mt (unpackMantissa_eq_zero_iff b).mpr hmantissa)
          exact Or.inr (Or.inr (Or.inr ⟨_, _, hpos, rfl⟩))
      · have hpos : 0 < (1#1 ++
            (unpackMantissa b : BitVec Format.binary32.mantissaBitsWithoutImplicit)).toNat := by
          rw [toNat_append]
          exact Nat.add_pos_left (by decide) _
        exact Or.inr (Or.inr (Or.inr ⟨_, _, hpos, rfl⟩))
  · have hones := (unpackExponent_eq_ones_iff b).mpr (by omega)
    have hmantissa := mt (unpackMantissa_eq_zero_iff b).mp (by omega)
    rw [if_pos hones, if_neg hmantissa]
    exact Or.inl rfl

theorem unpack_cases_of_beyond (hx : 255 * 2 ^ 23 < x.toBits.toNat) :
    x.toModel.unpack = .notANumber ∨ x.toModel.unpack = .infinity .negative ∨
      x.toModel.unpack = .zero .negative ∨
      ∃ m e, ∃ hm : 0 < m, x.toModel.unpack = .finite .negative m e hm :=
  unpack_beyond hx

theorem Holds.not_lt_beyond (hx : Holds x m k) (hy : 255 * 2 ^ 23 < y.toBits.toNat) : ¬x < y := by
  rw [lt_iff, UnpackedFloat.lt]
  intro hlt
  rcases hx.unpack_cases with hunpacked | ⟨q, e, hq, hunpacked⟩
  · rw [hunpacked] at hlt
    rcases unpack_cases_of_beyond hy with hother | hother | hother | ⟨n, f, hn, hother⟩ <;>
      rw [hother] at hlt <;> cases hlt
  · rw [hunpacked] at hlt
    rcases unpack_cases_of_beyond hy with hother | hother | hother | ⟨n, f, hn, hother⟩ <;>
      rw [hother] at hlt <;> cases hlt

theorem Holds.lt_of_beyond (hx : Holds x m k) (hm : 0 < m) (hy : 255 * 2 ^ 23 < y.toBits.toNat) :
    y < x ∨ y.isNaN = true := by
  rw [lt_iff, UnpackedFloat.lt]
  obtain ⟨-, hpos, hunpacked⟩ := hx.isUnpacked hm
  have hnan : y.isNaN = y.toModel.unpack.isNaN := rfl
  rw [hnan, hunpacked]
  rcases unpack_cases_of_beyond hy
    with hother | hother | hother | ⟨n, e, hn, hother⟩ <;> rw [hother]
  · exact Or.inr rfl
  · exact Or.inl rfl
  · exact Or.inl rfl
  · exact Or.inl rfl

theorem Holds.le_or_lt (hx : Holds x m k) (hm : 0 < m)
    (y : Float32) : x ≤ y ∨ y < x ∨ y.isNaN = true := by
  rcases Nat.lt_trichotomy y.toBits.toNat (255 * 2 ^ 23) with hfinite | hinfinite | hbeyond
  · obtain ⟨n, j, hy⟩ := exists_holds hfinite
    rw [hx.le_iff_value hy, hy.lt_iff_value hx]
    exact (Nat.lt_or_ge _ _).symm.imp id Or.inl
  · exact Or.inl (IsInfinite.le hinfinite hx)
  · exact Or.inr (hx.lt_of_beyond hm hbeyond)

theorem holds_or_infinite_of_le (hx : Holds x m k) (hm : 0 < m) (hle : x ≤ y) :
    (∃ n j, Holds y n j) ∨ IsInfinite y := by
  rcases Nat.lt_trichotomy y.toBits.toNat (255 * 2 ^ 23) with hfinite | hinfinite | hbeyond
  · exact Or.inl (exists_holds hfinite)
  · exact Or.inr hinfinite
  · rw [le_iff, UnpackedFloat.le] at hle
    obtain ⟨-, hpos, hunpacked⟩ := hx.isUnpacked hm
    rw [hunpacked] at hle
    rcases unpack_cases_of_beyond hbeyond with hother | hother | hother | ⟨n, e, hn, hother⟩ <;>
      rw [hother] at hle <;> cases hle

end Volley.Single
