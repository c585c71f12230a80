import Mathlib
import Volley.Proofs.Number.Rounded

/-!
# Double precision

Positive numbers that are neither very small nor very great are held with fifty-three binary digits.
A product or a quotient of two of them is off by at most half of its last digit.
-/

namespace Volley.Double

open Float.Model Float.Model.UnpackedFloat
open Volley.Single

/-- A significand with all its digits, and the power of two that it counts. -/
structure Normal (m : Nat) (e : ℤ) : Prop where
  least : 2 ^ 52 ≤ m
  digits : m < 2 ^ 53
  low : -1074 ≤ e
  high : e ≤ 971

variable {x y : Float} {sign : Sign} {m n : Nat} {e f : ℤ}

theorem Normal.pos (h : Normal m e) : 0 < m :=
  lt_of_lt_of_le (by decide) h.least

theorem Normal.log2_eq (h : Normal m e) : m.log2 = 52 :=
  (Nat.log2_eq_iff h.pos.ne').mpr ⟨h.least, h.digits⟩

theorem Normal.lt_of_le {a : ℤ} (h : Normal m e) (ha : (2 : ℝ) ^ a ≤ m * 2 ^ e) : a < e + 53 := by
  have hdigits : (m : ℝ) < 2 ^ (53 : ℤ) := by exact_mod_cast h.digits
  have hpower : (2 : ℝ) ^ a < 2 ^ (e + 53) := by
    rw [add_comm, zpow_add₀ two_ne_zero]
    exact ha.trans_lt (mul_lt_mul_of_pos_right hdigits (by positivity))
  exact (zpow_lt_zpow_iff_right₀ one_lt_two).mp hpower

theorem Normal.lt_of_lt {b : ℤ} (h : Normal m e) (hb : m * 2 ^ e < (2 : ℝ) ^ b) : e + 52 < b := by
  have hleast : (2 : ℝ) ^ (52 : ℤ) ≤ m := by exact_mod_cast h.least
  have hpower : (2 : ℝ) ^ (e + 52) < 2 ^ b := by
    rw [add_comm, zpow_add₀ two_ne_zero]
    exact (mul_le_mul_of_nonneg_right hleast (by positivity)).trans_lt hb
  exact (zpow_lt_zpow_iff_right₀ one_lt_two).mp hpower

theorem eq_of_abs_sub_lt_one {a b : Nat} (h : |(a : ℝ) - b| < 1) : a = b := by
  have hdifference : |(a - b : ℤ)| < 1 := by exact_mod_cast h
  exact_mod_cast sub_eq_zero.mp (Int.abs_lt_one_iff.mp hdifference)

/-! ## Packing -/

theorem toNat_unpackSign (b : BitVec 64) :
    (@unpackSign Format.binary64 b).toNat = b.toNat / 2 ^ 63 % 2 := by
  rw [unpackSign, BitVec.toNat_cast, BitVec.extractLsb_toNat, Nat.shiftRight_eq_div_pow]
  rfl

theorem unpackSign_packComponents (sign : Sign) (exponent : BitVec 11) (mantissa : BitVec 52) :
    @unpackSign Format.binary64 (packComponents Format.binary64 sign exponent mantissa) =
      sign.toBitVec := by
  apply BitVec.eq_of_toNat_eq
  have hpacked : (packComponents Format.binary64 sign exponent mantissa).toNat =
      (sign.toBitVec.toNat * 2 ^ 11 + exponent.toNat) * 2 ^ 52 + mantissa.toNat :=
    (toNat_append (sign.toBitVec ++ exponent) mantissa).trans (by rw [toNat_append])
  have hsign := sign.toBitVec.isLt
  have hexponent := exponent.isLt
  have hmantissa := mantissa.isLt
  rw [toNat_unpackSign, hpacked]
  omega

theorem Normal.unpack_pack (h : Normal m e) (hm : 0 < m) :
    unpack Format.binary64 (pack Format.binary64 (.finite sign m e hm)) = .finite sign m e hm := by
  obtain ⟨hleast, hdigits, hlow, hhigh⟩ := id h
  obtain ⟨k, hk⟩ : ∃ k : Nat, e + (1023 : Nat) + (52 : Nat) = k := ⟨(e + 1075).toNat, by omega⟩
  have hexponent : (BitVec.ofNat 11 k).toNat = k := by
    rw [BitVec.toNat_ofNat, Nat.mod_eq_of_lt (by omega)]
  have hones : ¬BitVec.ofNat 11 k = -1#11 := by
    intro heq
    have := congrArg BitVec.toNat heq
    rw [hexponent] at this
    change k = 2047 at this
    omega
  have hzero : ¬BitVec.ofNat 11 k = 0#11 := by
    intro heq
    have := congrArg BitVec.toNat heq
    rw [hexponent] at this
    change k = 0 at this
    omega
  have hmantissa : (1#1 ++ BitVec.ofNat 52 m).toNat = m := by
    rw [toNat_append, BitVec.toNat_ofNat]
    change 1 * 2 ^ 52 + m % 2 ^ 52 = m
    omega
  have hpack : pack Format.binary64 (.finite sign m e hm) =
      packComponents Format.binary64 sign (BitVec.ofNat 11 k) (BitVec.ofNat 52 m) := by
    change (if 2 ^ 11 ≤ (e + (1023 : Nat) + (52 : Nat)).toNat +
      1 then packedInfinity Format.binary64 sign
      else if m.log2 + 1 = 53 then
        packComponents Format.binary64 sign (BitVec.ofNat 11 (e + (1023 : Nat) + (52 : Nat)).toNat)
          (BitVec.ofNat 52 m)
      else packComponents Format.binary64 sign (BitVec.ofNat 11 0) (BitVec.ofNat 52 m)) = _
    rw [hk, Int.toNat_natCast, if_neg (by omega), if_pos (by rw [h.log2_eq])]
  have hunpack : unpack Format.binary64 (packComponents Format.binary64 sign (BitVec.ofNat 11 k)
      (BitVec.ofNat 52 m)) =
      .finite (Sign.ofBitVec sign.toBitVec) (1#1 ++ BitVec.ofNat 52 m).toNat
        ((BitVec.ofNat 11 k).toNat - ((1023 : Nat) + (52 : Nat)))
        (by rw [hmantissa]; exact hm) := by
    rw [UnpackedFloat.unpack]
    simp only [unpackExponent_packComponents, unpackMantissa_packComponents,
      unpackSign_packComponents]
    rw [if_neg hones, if_neg hzero]
    rfl
  rw [hpack, hunpack, ofBitVec_toBitVec]
  congr 1
  rw [hexponent]
  omega

/-! ## Rounding -/

theorem shiftToTargetExponent_of_target {format : Format} {acc : Accuracy} {q g : Nat}
    (htarget : format.targetExponent (totalExponent q e) = e + g) :
    shiftToTargetExponent format q e acc =
      (ExtendedMantissa.ofMantissaAndAccuracy q acc >>> g, e + g) := by
  rw [shiftToTargetExponent, shiftToExponent, htarget, show (e + g - e).toNat = g by omega]

theorem targetExponent_eq {q g : Nat} (hlow : 2 ^ 52 * 2 ^ g ≤ q) (hhigh : q < 2 ^ 53 * 2 ^ g)
    (he : -1074 ≤ e + g) : Format.binary64.targetExponent (totalExponent q e) = e + g := by
  have hne : q ≠ 0 := by
    have := Nat.two_pow_pos g
    omega
  have hlog : q.log2 = 52 + g := by
    refine (Nat.log2_eq_iff hne).mpr ⟨?_, ?_⟩
    · rwa [Nat.pow_add]
    · rwa [show 52 + g + 1 = 53 + g by omega, Nat.pow_add]
  change max ((q.log2 : ℤ) + 1 + e - 53) (-1074) = e + g
  omega

/-- A rounded significand that comes to fifty-four digits is a power of two, and
is written with one digit less. -/
theorem exists_normal_rounded {w : Nat} (hleast : 2 ^ 52 ≤ w) (hdigits : w ≤ 2 ^ 53)
    (he : -1074 ≤ e) (he' : e ≤ 970) (sign : Sign) :
    ∃ m f, ∃ hm : 0 < m, (let final := (shiftToTargetExponent Format.binary64 w e .exact)
      (if h : final.1.mantissa = 0 then .zero sign
        else .finite sign final.1.mantissa final.2 (Nat.pos_of_ne_zero h)) =
          UnpackedFloat.finite sign m f hm) ∧
      Normal m f ∧ (m * 2 ^ f : ℝ) = w * 2 ^ e := by
  rcases Nat.lt_or_eq_of_le hdigits with hlt | rfl
  · have hshift : shiftToTargetExponent Format.binary64 w e .exact =
        (ExtendedMantissa.ofMantissaAndAccuracy w .exact, e) := by
      have htarget := targetExponent_eq (e := e) (g := 0) (q := w) (by omega) (by omega) (by omega)
      rw [shiftToTargetExponent_of_target htarget, Int.natCast_zero, Int.add_zero]
      rfl
    refine ⟨w, e, by omega, ?_, ⟨hleast, hlt, he, by omega⟩, rfl⟩
    dsimp only
    rw [hshift]
    exact dif_neg (show ¬w = 0 by omega)
  · have htarget := targetExponent_eq (e := e) (g := 1) (q := 2 ^ 53) (by omega)
      (by omega) (by omega)
    refine ⟨2 ^ 52, e + 1, by decide, ?_, ⟨le_rfl, by decide, by omega, by omega⟩, ?_⟩
    · dsimp only
      rw [shiftToTargetExponent_of_target htarget, shiftRight_exact]
      exact dif_neg (show ¬2 ^ 53 / 2 ^ 1 = 0 by decide)
    · rw [zpow_add₀ two_ne_zero]
      push_cast
      ring

/-- Rounding keeps fifty-three digits of what a significand stands for, the
last one of them rounded. -/
theorem roundWithAccuracy_normal {acc : Accuracy} {q g : Nat} {r : ℝ}
    (hstands : Stands (.ofMantissaAndAccuracy q acc) r) (hlow : 2 ^ 52 * 2 ^ g ≤ r)
    (hhigh : r < 2 ^ 53 * 2 ^ g) (he : -1074 ≤ e + g) (he' : e + g ≤ 970) (sign : Sign) :
    ∃ w m : Nat, ∃ f, ∃ hm : 0 < m, roundWithAccuracy Format.binary64 sign q e acc =
      .finite sign m f hm ∧ Normal m f ∧
      (m * 2 ^ f : ℝ) = w * 2 ^ (e + g) ∧ |(w : ℝ) - r / 2 ^ g| ≤ 1 / 2 := by
  obtain ⟨hbelow, habove⟩ := hstands.bounds
  rw [mantissa_ofMantissaAndAccuracy] at hbelow habove
  have hpower : (0 : ℝ) < 2 ^ g := by positivity
  have hlow' : 2 ^ 52 * 2 ^ g ≤ q := by
    have : (2 ^ 52 * 2 ^ g : ℝ) < q + 1 := by linarith
    exact Nat.lt_succ_iff.mp (by exact_mod_cast this)
  have hhigh' : q < 2 ^ 53 * 2 ^ g := by
    have : (q : ℝ) < 2 ^ 53 * 2 ^ g := by linarith
    exact_mod_cast this
  have hrounded := (hstands.shiftRight g).abs_roundedMantissa_sub_le
  rw [roundWithAccuracy, shiftToTargetExponent_of_target (targetExponent_eq hlow' hhigh' he)]
  dsimp only
  generalize (ExtendedMantissa.ofMantissaAndAccuracy q acc >>> g).roundedMantissa = w at hrounded
  obtain ⟨hnear, hnear'⟩ := abs_le.mp hrounded
  have hscaled : 2 ^ 52 ≤ r / 2 ^ g := (le_div_iff₀ hpower).mpr hlow
  have hscaled' : r / 2 ^ g < 2 ^ 53 := (div_lt_iff₀ hpower).mpr hhigh
  have hleast : 2 ^ 52 ≤ w := by
    have : (2 ^ 52 : ℝ) < w + 1 := by linarith
    exact Nat.lt_succ_iff.mp (by exact_mod_cast this)
  have hdigits : w ≤ 2 ^ 53 := by
    have : (w : ℝ) < 2 ^ 53 + 1 := by linarith
    exact Nat.lt_succ_iff.mp (by exact_mod_cast this)
  obtain ⟨m, f, hm, hfinal, hnormal, hvalue⟩ := exists_normal_rounded hleast hdigits he he' sign
  exact ⟨w, m, f, hm, hfinal, hnormal, hvalue, hrounded⟩

/-! ## Operations -/

/-- A number is held with all digits. -/
structure Holds (x : Float) (sign : Sign) (m : Nat) (e : ℤ) : Prop where
  normal : Normal m e
  unpack : ∃ hm, x.toModel.unpack = .finite sign m e hm

/-- `v` is a whole number of units in the last of the fifty-three digits of `r`, and next to `r`. -/
structure Near (v r : ℝ) : Prop where
  digits : ∃ (t : ℤ) (w : Nat), v = w * 2 ^ t ∧ 2 ^ 52 * 2 ^ t ≤ r ∧ r < 2 ^ 53 * 2 ^ t ∧
    |v - r| ≤ 1 / 2 * 2 ^ t

/-- `x` is what a positive real number is rounded to. -/
structure Rounds (x : Float) (r : ℝ) : Prop where
  held : ∃ m e, Holds x .positive m e ∧ Near (m * 2 ^ e) r

theorem holds_of_pack {hm : 0 < m} (h : Normal m e)
    (hx : x = .ofModel (.pack (.finite sign m e hm))) : Holds x sign m e :=
  ⟨h, hm, by rw [hx]; exact h.unpack_pack hm⟩

theorem Holds.neg (h : Holds x .positive m e) : Holds (-x) .negative m e := by
  obtain ⟨hnormal, hm, hunpack⟩ := h
  have hneg : -x = .ofModel (.pack x.toModel.unpack.neg) := rfl
  rw [hunpack] at hneg
  exact holds_of_pack hnormal hneg

theorem rounds_of_pack {acc : Accuracy} {q g : Nat} {r : ℝ}
    (hstands : Stands (.ofMantissaAndAccuracy q acc) r) (hlow : 2 ^ 52 * 2 ^ g ≤ r)
    (hhigh : r < 2 ^ 53 * 2 ^ g) (he : -1074 ≤ e + g) (he' : e + g ≤ 970)
    (hx : x = .ofModel (.pack (roundWithAccuracy Format.binary64 .positive q e acc))) :
    Rounds x (r * 2 ^ e) := by
  obtain ⟨w, m, f, hm, hround, hnormal, hvalue, hnear⟩ :=
    roundWithAccuracy_normal hstands hlow hhigh he he' .positive
  rw [hround] at hx
  have hpower : (0 : ℝ) < 2 ^ e := by positivity
  have hunit : (2 : ℝ) ^ (e + g) = 2 ^ g * 2 ^ e := by
    rw [zpow_add₀ two_ne_zero, zpow_natCast, mul_comm]
  have hscaled : (w : ℝ) * 2 ^ (e + g) - r * 2 ^ e = (w - r / 2 ^ g) * 2 ^ (e + g) := by
    rw [hunit]
    field_simp
  refine ⟨m, f, holds_of_pack hnormal hx, e + g, w, hvalue, ?_, ?_, ?_⟩
  · rw [hunit, ← mul_assoc]
    exact mul_le_mul_of_nonneg_right hlow hpower.le
  · rw [hunit, ← mul_assoc]
    exact mul_lt_mul_of_pos_right hhigh hpower
  · rw [hvalue, hscaled, abs_mul, abs_of_pos (show (0 : ℝ) < 2 ^ (e + g) by positivity)]
    exact mul_le_mul_of_nonneg_right hnear (by positivity)

theorem rounds_mul (hx : Holds x .positive m e) (hy : Holds y .positive n f)
    (hlow : -1074 ≤ e + f + 52) (hhigh : e + f + 53 ≤ 970) :
    Rounds (x * y) (m * 2 ^ e * (n * 2 ^ f)) := by
  obtain ⟨⟨hleast, hdigits, -, -⟩, hm, hunpack⟩ := hx
  obtain ⟨⟨hleast', hdigits', -, -⟩, hn, hunpack'⟩ := hy
  have hproduct : x * y = .ofModel
      (.pack (mul Format.binary64 x.toModel.unpack y.toModel.unpack)) := rfl
  rw [hunpack, hunpack'] at hproduct
  have hvalue : (m * 2 ^ e * (n * 2 ^ f) : ℝ) = (m * n : Nat) * 2 ^ (e + f) := by
    rw [zpow_add₀ two_ne_zero]
    push_cast
    ring
  have hfew : m * n < 2 ^ 106 := by nlinarith
  have hmany : 2 ^ 104 ≤ m * n := by nlinarith
  rw [hvalue]
  by_cases hcarry : m * n < 2 ^ 105
  · refine rounds_of_pack (g := 52) (stands_exact (m * n)) ?_ ?_ (by omega) (by omega) hproduct
    · exact_mod_cast hmany
    · exact_mod_cast hcarry
  · refine rounds_of_pack (g := 53) (stands_exact (m * n)) ?_ ?_ (by omega) (by omega) hproduct
    · exact_mod_cast not_lt.mp hcarry
    · exact_mod_cast hfew

theorem divCore_eq (hm : Normal m e) (hn : Normal n f) (he : -1074 ≤ e - f - 53) :
    divCore Format.binary64 m e n f =
      (m <<< 53 / n, e - f - 53, accuracyOfFraction (m <<< 53 % n) n) := by
  have htarget : min (e - f)
      (Format.binary64.targetExponent (totalExponent m e - totalExponent n f)) = e - f - 53 := by
    change min (e - f) (max (((m.log2 : ℤ) + 1 + e) - (n.log2 + 1 + f) - 53) (-1074)) = e - f - 53
    rw [hm.log2_eq, hn.log2_eq]
    omega
  rw [divCore, htarget, show (e - f - (e - f - 53)).toNat = 53 by omega]

theorem rounds_div (hx : Holds x .positive m e) (hy : Holds y .positive n f)
    (hlow : -1074 ≤ e - f - 53) (hhigh : e - f - 52 ≤ 970) :
    Rounds (x / y) (m * 2 ^ e / (n * 2 ^ f)) := by
  obtain ⟨hnormal, hm, hunpack⟩ := hx
  obtain ⟨hnormal', hn, hunpack'⟩ := hy
  have hquotient : x / y = .ofModel
      (.pack (UnpackedFloat.div Format.binary64 x.toModel.unpack y.toModel.unpack)) := rfl
  rw [hunpack, hunpack', UnpackedFloat.div, divCore_eq hnormal hnormal' hlow] at hquotient
  dsimp only at hquotient
  rw [show Sign.positive / Sign.positive = .positive from rfl] at hquotient
  have hn' : (0 : ℝ) < n := by exact_mod_cast hn
  have hvalue : (m * 2 ^ e / (n * 2 ^ f) : ℝ) = (m <<< 53 : Nat) / n * 2 ^ (e - f - 53) := by
    rw [Nat.shiftLeft_eq, zpow_sub₀ two_ne_zero, zpow_sub₀ two_ne_zero]
    push_cast
    field_simp
    norm_num
  have hleast : (2 ^ 52 : ℝ) ≤ m := by exact_mod_cast hnormal.least
  have hdigits : (m : ℝ) < 2 ^ 53 := by exact_mod_cast hnormal.digits
  have hleast' : (2 ^ 52 : ℝ) ≤ n := by exact_mod_cast hnormal'.least
  have hdigits' : (n : ℝ) < 2 ^ 53 := by exact_mod_cast hnormal'.digits
  have hshift : ((m <<< 53 : Nat) : ℝ) = m * 2 ^ 53 := by
    rw [Nat.shiftLeft_eq]
    norm_num
  rw [hvalue]
  generalize m <<< 53 = shifted at hquotient hshift ⊢
  by_cases hcarry : (shifted : ℝ) / n < 2 ^ 53
  · refine rounds_of_pack (g := 0) (stands_quotient _ hn) ?_ ?_ (by omega) (by omega) hquotient
    · rw [pow_zero, mul_one, le_div_iff₀ hn', hshift]
      exact mul_le_mul hleast hdigits'.le hn'.le (by positivity)
    · rwa [pow_zero, mul_one]
  · refine rounds_of_pack (g := 1) (stands_quotient _ hn) ?_ ?_ (by omega) (by omega) hquotient
    · rw [not_lt] at hcarry
      rwa [pow_one, ← pow_succ]
    · rw [div_lt_iff₀ hn', hshift, mul_assoc]
      exact mul_lt_mul hdigits (by linarith) (by positivity) (by positivity)

/-- A whole number of at most fifty-three digits is held as it is. -/
theorem exists_holds_ofNat {s : Nat} (hs : 0 < s) (hdigits : s < 2 ^ 53) :
    ∃ m e, Holds (UInt64.ofNat s).toFloat .positive m e ∧ (m * 2 ^ e : ℝ) = s ∧
      -52 ≤ e ∧ e ≤ 0 := by
  obtain ⟨k, hk⟩ : ∃ k : Nat, s.log2 + k = 52 :=
    ⟨52 - s.log2, by have := (Nat.log2_lt hs.ne').mpr hdigits; omega⟩
  obtain ⟨hlow, hhigh⟩ := (Nat.log2_eq_iff hs.ne').mp rfl
  have hleast : 2 ^ 52 ≤ s * 2 ^ k := by
    rw [← hk, Nat.pow_add]
    exact Nat.mul_le_mul_right _ hlow
  have hmost : s * 2 ^ k < 2 ^ 53 := by
    rw [show 53 = s.log2 + 1 + k by omega, Nat.pow_add]
    exact Nat.mul_lt_mul_of_pos_right hhigh (Nat.two_pow_pos k)
  have hrounded : round Format.binary64 .positive s 0 =
      roundWithAccuracy Format.binary64 .positive (s * 2 ^ k) (-k) .exact := by
    have htarget : Format.binary64.targetExponent (totalExponent s 0) = -(k : ℤ) := by
      change max ((s.log2 : ℤ) + 1 + 0 - 53) (-1074) = -(k : ℤ)
      omega
    rw [UnpackedFloat.round, htarget, decreaseExponent, show ((0 : ℤ) - -(k : ℤ)).toNat =
      k by omega, Nat.shiftLeft_eq,
      Int.zero_sub]
  have hmodel : (UInt64.ofNat s).toFloat =
      .ofModel (.pack (round Format.binary64 .positive s 0)) := by
    have hsize : s % UInt64.size = s := Nat.mod_eq_of_lt (hdigits.trans (by decide))
    have hnormalized : UnpackedFloat.ofNat Format.binary64 s =
        round Format.binary64 .positive s 0 := by
      rw [UnpackedFloat.ofNat, UnpackedFloat.ofInt, UnpackedFloat.normalize,
        compare_gt_iff_gt.mpr (show (0 : ℤ) < s by omega),
        Int.toNat_natCast]
    rw [← hnormalized]
    change Float.ofModel (.pack (UnpackedFloat.ofNat Format.binary64 (UInt64.ofNat s).toNat)) = _
    rw [UInt64.toNat_ofNat', hsize]
  obtain ⟨w, m, f, hm, hround, hnormal, hvalue, hnear⟩ :=
    roundWithAccuracy_normal (g := 0) (e := -k)
    (stands_exact (s * 2 ^ k)) (by rw [pow_zero, mul_one]; exact_mod_cast hleast)
    (by rw [pow_zero, mul_one]; exact_mod_cast hmost) (by omega) (by omega) .positive
  rw [hrounded, hround] at hmodel
  rw [pow_zero, div_one] at hnear
  have hexact : (m * 2 ^ f : ℝ) = s := by
    rw [hvalue, eq_of_abs_sub_lt_one (hnear.trans_lt one_half_lt_one), Int.natCast_zero, add_zero,
      zpow_neg, zpow_natCast]
    push_cast
    field_simp
  refine ⟨m, f, holds_of_pack hnormal hmodel, hexact, ?_, ?_⟩
  · have := hnormal.lt_of_le (a := 0) (by rw [hexact]; exact_mod_cast hs)
    omega
  · have := hnormal.lt_of_lt (b := 53) (by rw [hexact]; exact_mod_cast hdigits)
    omega

/-! ## Comparison with numbers of few digits -/

variable {v r b : ℝ} {t : ℤ}

theorem Near.abs_sub_le (h : Near v r) : |v - r| ≤ r / 2 ^ 53 := by
  obtain ⟨s, w, -, hlow, -, hclose⟩ := h.digits
  refine hclose.trans ?_
  rw [le_div_iff₀ (by positivity)]
  linarith

/-- A number of few digits, counting a power of two. -/
structure Few (b : ℝ) (t : ℤ) : Prop where
  count : ∃ n : Nat, b = n * 2 ^ t
  low : 2 ^ 24 * 2 ^ t ≤ b
  high : b < 2 ^ 25 * 2 ^ t

theorem exists_few {n : Nat} (hn : 0 < n) (hmost : n < 2 ^ 25)
    (q : ℤ) : ∃ t, Few (n * 2 ^ q) t := by
  obtain ⟨k, hk⟩ : ∃ k : Nat, n.log2 + k = 24 :=
    ⟨24 - n.log2, by have := (Nat.log2_lt hn.ne').mpr hmost; omega⟩
  obtain ⟨hlow, hhigh⟩ := (Nat.log2_eq_iff hn.ne').mp rfl
  have hleast : 2 ^ 24 ≤ n * 2 ^ k := by
    rw [← hk, Nat.pow_add]
    exact Nat.mul_le_mul_right _ hlow
  have hdigits : n * 2 ^ k < 2 ^ 25 := by
    rw [show 25 = n.log2 + 1 + k by omega, Nat.pow_add]
    exact Nat.mul_lt_mul_of_pos_right hhigh (Nat.two_pow_pos k)
  have hcount : (n * 2 ^ q : ℝ) = (n * 2 ^ k : ℕ) * 2 ^ (q - k) := by
    rw [show q = k + (q - k) by ring, zpow_add₀ two_ne_zero, zpow_natCast,
      show (k : ℤ) + (q - k) - k = q - k by ring]
    push_cast
    ring
  have hpower : (0 : ℝ) < 2 ^ (q - k) := by positivity
  refine ⟨q - k, ⟨n * 2 ^ k, hcount⟩, ?_, ?_⟩
  · rw [hcount]
    exact mul_le_mul_of_nonneg_right (by exact_mod_cast hleast) hpower.le
  · rw [hcount]
    exact mul_lt_mul_of_pos_right (by exact_mod_cast hdigits) hpower

/-- How far the last digits of two numbers are apart, of which the one with
more digits is not greater. -/
theorem power_le {s : ℤ} (hlow : 2 ^ 52 * 2 ^ s ≤ r) (hr : r < 2 ^ 25 * 2 ^ t) : s + 28 ≤ t := by
  have hpower : (2 : ℝ) ^ (s + 27) < 2 ^ t := by
    have : (2 : ℝ) ^ 25 * 2 ^ (s + 27) = 2 ^ 52 * 2 ^ s := by
      rw [zpow_add₀ two_ne_zero]
      norm_num
      ring
    refine lt_of_mul_lt_mul_left ?_ (show (0 : ℝ) ≤ 2 ^ 25 by positivity)
    rw [this]
    exact hlow.trans_lt hr
  have := (zpow_lt_zpow_iff_right₀ one_lt_two).mp hpower
  omega

theorem half_le {s : ℤ} (hst : s + 28 ≤ t) : 1 / 2 * (2 : ℝ) ^ s ≤ 2 ^ (t - 29) := by
  rw [show (1 / 2 : ℝ) = 2 ^ (-1 : ℤ) by norm_num, ← zpow_add₀ two_ne_zero]
  exact zpow_le_zpow_right₀ one_le_two (by omega)

theorem Near.lt_of_lt (h : Near v r) (hb : Few b t) (hr : r + 2 ^ (t - 29) < b) : v < b := by
  obtain ⟨s, w, -, hlow, -, hclose⟩ := h.digits
  have hunit : (0 : ℝ) < 2 ^ (t - 29) := by positivity
  have hsmall : r < 2 ^ 25 * 2 ^ t := by linarith [hb.high]
  have hhalf := half_le (power_le hlow hsmall)
  linarith [(abs_le.mp hclose).2]

theorem Near.lt_of_gt (h : Near v r) (hb : Few b t) (hr : b + 2 ^ (t - 29) < r) : b < v := by
  obtain ⟨s, w, hv, hlow, -, hclose⟩ := h.digits
  by_cases hgreat : r < 2 ^ 25 * 2 ^ t
  · have hhalf := half_le (power_le hlow hgreat)
    linarith [(abs_le.mp hclose).1]
  · obtain ⟨n, rfl⟩ := hb.count
    have hpower : (0 : ℝ) < 2 ^ t := by positivity
    have hn : (n : ℝ) + 1 ≤ 2 ^ 25 := by
      have : (n : ℝ) < 2 ^ 25 := lt_of_mul_lt_mul_right hb.high hpower.le
      exact_mod_cast Nat.succ_le_of_lt (by exact_mod_cast this : n < 2 ^ 25)
    have hg := mul_le_mul_of_nonneg_right hn hpower.le
    have hnear := (abs_le.mp h.abs_sub_le).1
    have hscale : (1 - 1 / 2 ^ 53) * (2 ^ 25 * 2 ^ t) ≤ (1 - 1 / 2 ^ 53) * r :=
      mul_le_mul_of_nonneg_left (not_lt.mp hgreat) (by norm_num)
    linarith

theorem Near.eq_of_eq (h : Near v r) (hb : Few b t) (hr : r = b) : v = b := by
  obtain ⟨s, w, rfl, hlow, -, hclose⟩ := h.digits
  obtain ⟨n, hn⟩ := hb.count
  obtain ⟨g, hg⟩ := Int.eq_ofNat_of_zero_le (sub_nonneg.mpr (show s ≤ t by
    have := power_le hlow (hr.trans_lt hb.high)
    omega))
  have hunit : (0 : ℝ) < 2 ^ s := by positivity
  have hcount : b = (n * 2 ^ g : ℕ) * 2 ^ s := by
    rw [hn, show t = g + s by omega, zpow_add₀ two_ne_zero, zpow_natCast]
    push_cast
    ring
  rw [hr, hcount, ← sub_mul, abs_mul, abs_of_pos hunit] at hclose
  have hhalf := le_of_mul_le_mul_right hclose hunit
  rw [hcount, eq_of_abs_sub_lt_one (hhalf.trans_lt one_half_lt_one)]

end Volley.Double
