import Volley.Proofs.Number.Double

/-!
# Differences in double precision

The numbers lie so close together near zero that rounding loses no difference: it is positive just
if the first number is greater than the second one.
-/

namespace Volley.Double

open Float.Model Float.Model.UnpackedFloat
open Volley.Single

variable {x y : Float} {u v : UnpackedFloat} {sign other : Sign} {m n w : Nat} {e f : ℤ}

/-- The unpacked number is greater than zero. -/
def isPositive (u : UnpackedFloat) : Bool :=
  (UnpackedFloat.zero .positive).lt u

theorem lt_iff (x y : Float) : x < y ↔ x.toModel.unpack.lt y.toModel.unpack = true := by
  change decide (x.toModel.unpack.lt y.toModel.unpack = true) = true ↔ _
  rw [decide_eq_true_iff]

theorem zero_lt_iff (x : Float) : 0 < x ↔ isPositive x.toModel.unpack = true :=
  lt_iff 0 x

/-- The significand has at most fifty-three digits, and the power that it
counts is not too small. -/
structure Fits (m : Nat) (e : ℤ) : Prop where
  digits : m < 2 ^ 53
  low : -1074 ≤ e

/-- All digits of the significand are used unless the number is very small. -/
structure Canonical (m : Nat) (e : ℤ) : Prop extends Fits m e where
  full : e = -1074 ∨ 2 ^ 52 ≤ m

def AllFits : UnpackedFloat → Prop
  | .finite _ m e _ => Fits m e
  | _ => True

def AllCanonical : UnpackedFloat → Prop
  | .finite _ m e _ => Canonical m e
  | _ => True

/-! ## Packing -/

theorem isPositive_finite (sign : Sign) (hm : 0 < m) (e : ℤ) :
    isPositive (.finite sign m e hm) = true ↔ sign = .positive := by
  cases sign with
  | negative => exact iff_of_false nofun nofun
  | positive => exact iff_of_true rfl rfl

theorem isPositive_infinity (sign : Sign) :
    isPositive (.infinity sign) = true ↔ sign = .positive := by
  cases sign with
  | negative => exact iff_of_false nofun nofun
  | positive => exact iff_of_true rfl rfl

theorem isPositive_packComponents (sign : Sign) {exponent : BitVec 11} {mantissa : BitVec 52}
    (hnumber : exponent = -1#11 → mantissa = 0#52) (hnonzero : exponent = 0#11 → mantissa ≠ 0#52) :
    isPositive (unpack Format.binary64 (packComponents Format.binary64 sign exponent mantissa)) =
      true ↔
      sign = .positive := by
  rw [UnpackedFloat.unpack]
  simp only [unpackExponent_packComponents, unpackMantissa_packComponents,
    unpackSign_packComponents, ofBitVec_toBitVec]
  split
  · rename_i hones
    rw [if_pos (hnumber hones)]
    exact isPositive_infinity sign
  · split
    · rename_i hzero
      rw [dif_neg (hnonzero hzero)]
      exact isPositive_finite sign _ _
    · exact isPositive_finite sign _ _

theorem isPositive_packedInfinity (sign : Sign) :
    isPositive (unpack Format.binary64 (packedInfinity Format.binary64 sign)) = true ↔
      sign = .positive :=
  isPositive_packComponents sign (fun _ => rfl) nofun

theorem isPositive_pack_finite (hm : 0 < m) (hfits : Fits m e) (sign : Sign) :
    isPositive (unpack Format.binary64 (UnpackedFloat.pack Format.binary64 (.finite sign m e hm))) =
      true ↔
      sign = .positive := by
  obtain ⟨hdigits, hlow⟩ := hfits
  obtain ⟨k, hk⟩ : ∃ k : Nat, e + (1023 : Nat) + (52 : Nat) = k := ⟨(e + 1075).toNat, by omega⟩
  change isPositive (unpack Format.binary64
    (if 2 ^ 11 ≤ (e + (1023 : Nat) + (52 : Nat)).toNat + 1 then packedInfinity Format.binary64 sign
    else if m.log2 + 1 = 53 then
      packComponents Format.binary64 sign (BitVec.ofNat 11 (e + (1023 : Nat) + (52 : Nat)).toNat)
        (BitVec.ofNat 52 m)
    else packComponents Format.binary64 sign (BitVec.ofNat 11 0) (BitVec.ofNat 52 m))) = true ↔ _
  rw [hk, Int.toNat_natCast]
  split
  · exact isPositive_packedInfinity sign
  · have hexponent : (BitVec.ofNat 11 k).toNat = k := by
      rw [BitVec.toNat_ofNat, Nat.mod_eq_of_lt (by omega)]
    split
    · refine isPositive_packComponents sign (fun hones => ?_) fun hzero => ?_
      · rw [hones] at hexponent
        change 2047 = k at hexponent
        omega
      · rw [hzero] at hexponent
        change 0 = k at hexponent
        omega
    · rename_i hfew
      have hleast : m < 2 ^ 52 := by
        have hlog := (Nat.log2_lt hm.ne').mpr hdigits
        exact (Nat.log2_lt hm.ne').mp (by omega)
      refine isPositive_packComponents sign nofun fun _ hzero => ?_
      have hmantissa := congrArg BitVec.toNat hzero
      rw [BitVec.toNat_ofNat, Nat.mod_eq_of_lt hleast] at hmantissa
      exact hm.ne' hmantissa

/-- Packing keeps the sign, and what it makes of a positive number is no zero. -/
theorem isPositive_pack (hu : AllFits u) :
    isPositive (unpack Format.binary64 (UnpackedFloat.pack Format.binary64 u)) = isPositive u := by
  cases u with
  | notANumber =>
      have hunpack : unpack Format.binary64 (UnpackedFloat.pack Format.binary64 .notANumber) =
          .notANumber := rfl
      rw [hunpack]
  | zero sign =>
      have hunpack : unpack Format.binary64 (UnpackedFloat.pack Format.binary64 (.zero sign)) =
          .zero sign := by
        cases sign <;> rfl
      rw [hunpack]
  | infinity sign =>
      rw [Bool.eq_iff_iff, isPositive_infinity]
      exact isPositive_packedInfinity sign
  | finite sign m e hm => rw [Bool.eq_iff_iff, isPositive_finite, isPositive_pack_finite hm hu]

theorem allCanonical_unpack (b : BitVec 64) : AllCanonical (unpack Format.binary64 b) := by
  have hmantissa := (unpackMantissa b : BitVec Format.binary64.mantissaBitsWithoutImplicit).isLt
  change _ < 2 ^ 52 at hmantissa
  rw [UnpackedFloat.unpack]
  dsimp only
  split
  · split <;> trivial
  · split
    · rename_i hzero
      split
      · trivial
      · refine ⟨⟨by omega, ?_⟩, .inl ?_⟩
        · rw [hzero]
          decide
        · rw [hzero]
          decide
    · rename_i hnonzero
      have hdigits : (1#1 ++ (unpackMantissa b : BitVec
          Format.binary64.mantissaBitsWithoutImplicit)).toNat =
          2 ^ 52 + (unpackMantissa b : BitVec Format.binary64.mantissaBitsWithoutImplicit).toNat :=
        (toNat_append 1#1 _).trans rfl
      have hpos : (unpackExponent b : BitVec Format.binary64.exponentBits).toNat ≠ 0 :=
        fun hzero => hnonzero (BitVec.eq_of_toNat_eq hzero)
      refine ⟨⟨?_, ?_⟩, .inr ?_⟩
      · rw [hdigits]
        omega
      · change -1074 ≤ (_ : ℤ) - ((1023 : Nat) + (52 : Nat))
        omega
      · rw [hdigits]
        omega

/-! ## Rounding -/

theorem targetExponent_totalExponent (w : Nat) (e : ℤ) :
    Format.binary64.targetExponent (totalExponent w e) =
      max ((w.log2 : ℤ) + 1 + e - 53) (-1074) := rfl

theorem shiftToTargetExponent_fits (hw : 0 < w) (he : -1074 ≤ e) :
    ∃ s : Nat, shiftToTargetExponent Format.binary64 w e .exact =
        (ExtendedMantissa.ofMantissaAndAccuracy w .exact >>> s, e + s) ∧
      0 < w / 2 ^ s ∧ Fits (w / 2 ^ s) (e + s) := by
  rw [shiftToTargetExponent, shiftToExponent, targetExponent_totalExponent]
  generalize hs : (max ((w.log2 : ℤ) + 1 + e - 53) (-1074) - e).toNat = s
  obtain ⟨hlow, hhigh⟩ := (Nat.log2_eq_iff hw.ne').mp rfl
  refine ⟨s, rfl, ?_, ?_, by omega⟩
  · -- Digits are only dropped from a significand that has more than fifty-three of them.
    refine Nat.div_pos ((Nat.pow_le_pow_right two_pos ?_).trans hlow) (Nat.two_pow_pos s)
    omega
  · rw [Nat.div_lt_iff_lt_mul (Nat.two_pow_pos s), ← Nat.pow_add]
    refine hhigh.trans_le (Nat.pow_le_pow_right two_pos ?_)
    omega

theorem roundWithAccuracy_fits (hw : 0 < w) (he : -1074 ≤ e) (sign : Sign) :
    ∃ m f, ∃ hm : 0 < m, roundWithAccuracy Format.binary64 sign w e .exact =
      .finite sign m f hm ∧ Fits m f := by
  obtain ⟨s, hshift, hleft, -, hlow⟩ := shiftToTargetExponent_fits hw he
  have hrounded := hleft.trans_le (Nearest.le_roundedQuotient (w / 2 ^ s) (w % 2 ^ s) (2 ^ s))
  rw [← roundedMantissa_shiftRight] at hrounded
  rw [roundWithAccuracy, hshift]
  dsimp only
  obtain ⟨t, hagain, hpos, hfits⟩ := shiftToTargetExponent_fits hrounded hlow
  rw [hagain, shiftRight_exact]
  exact ⟨_, _, hpos, dif_neg hpos.ne', hfits⟩

/-- A significand that counts no less than the least power is not rounded to
nothing, however small it is. -/
theorem round_fits (hw : 0 < w) (he : -1074 ≤ e) (sign : Sign) :
    ∃ m f, ∃ hm : 0 < m, UnpackedFloat.round Format.binary64 sign w e = .finite sign m f hm ∧
      Fits m f := by
  rw [UnpackedFloat.round, decreaseExponent, targetExponent_totalExponent]
  refine roundWithAccuracy_fits ?_ (by omega) sign
  rw [Nat.shiftLeft_eq]
  exact Nat.mul_pos hw (Nat.two_pow_pos _)

theorem normalize_spec (count : ℤ) (he : -1074 ≤ e) :
    AllFits (UnpackedFloat.normalize Format.binary64 count e .positive) ∧
      (isPositive (UnpackedFloat.normalize Format.binary64 count e .positive) = true ↔
        0 < count) := by
  rw [UnpackedFloat.normalize]
  rcases lt_trichotomy count 0 with hneg | rfl | hpos
  · obtain ⟨m, f, hm, hround, hfits⟩ := round_fits (w := (-count).toNat) (by omega) he .negative
    rw [compare_lt_iff_lt.mpr hneg]
    dsimp only
    rw [hround]
    exact ⟨hfits, iff_of_false Bool.false_ne_true (by omega)⟩
  · exact ⟨trivial, iff_of_false Bool.false_ne_true (by omega)⟩
  · obtain ⟨m, f, hm, hround, hfits⟩ := round_fits (w := count.toNat) (by omega) he .positive
    rw [compare_gt_iff_gt.mpr hpos]
    dsimp only
    rw [hround]
    exact ⟨hfits, iff_of_true rfl hpos⟩

/-! ## Order -/

theorem Canonical.lt_shiftLeft (hm : Canonical m e) (hn : Canonical n f)
    (hlt : f < e) : n < m <<< (e - f).toNat := by
  -- The greater power is not the least one, so the significand beside it has all its digits.
  have hlow := hn.low
  have hfull := hm.full.resolve_left (by omega)
  rw [Nat.shiftLeft_eq]
  calc n < 2 ^ 52 * 2 := hn.digits
    _ ≤ m * 2 ^ (e - f).toNat := Nat.mul_le_mul hfull (Nat.le_self_pow (by omega) 2)

/-- Numbers without a sign are ordered by their powers, and under one power by
their significands. -/
theorem Canonical.compare_shiftLeft (hm : Canonical m e) (hn : Canonical n f) :
    compare (m <<< (e - min e f).toNat) (n <<< (f - min e f).toNat) =
      (compare e f).then (compare m n) := by
  rcases lt_trichotomy e f with hlt | rfl | hgt
  · rw [min_eq_left hlt.le, Int.sub_self, compare_lt_iff_lt.mpr hlt, Ordering.lt_then]
    exact compare_lt_iff_lt.mpr (hn.lt_shiftLeft hm hlt)
  · rw [min_self, Int.sub_self, compare_eq_iff_eq.mpr rfl, Ordering.eq_then]
    rfl
  · rw [min_eq_right hgt.le, Int.sub_self, compare_gt_iff_gt.mpr hgt, Ordering.gt_then]
    exact compare_gt_iff_gt.mpr (hm.lt_shiftLeft hn hgt)

theorem Canonical.zero_lt_sub_iff (hm : Canonical m e) (hn : Canonical n f) (hpos : 0 < m)
    (hpos' : 0 < n) (sign other : Sign) :
    0 < sign.apply (m <<< (e - min e f).toNat : Nat) -
      other.apply (n <<< (f - min e f).toNat : Nat) ↔
      (UnpackedFloat.finite other n f hpos').lt (.finite sign m e hpos) = true := by
  have hcompare := hn.compare_shiftLeft hm
  rw [min_comm] at hcompare
  have hfirst : 0 < m <<< (e - min e f).toNat := by
    rw [Nat.shiftLeft_eq]
    positivity
  have hsecond : 0 < n <<< (f - min e f).toNat := by
    rw [Nat.shiftLeft_eq]
    positivity
  generalize m <<< (e - min e f).toNat = a at *
  generalize n <<< (f - min e f).toNat = b at *
  cases sign with
  | positive =>
      cases other with
      | positive =>
          rw [UnpackedFloat.lt, UnpackedFloat.compare, ← hcompare]
          simp only [Sign.apply, beq_iff_eq, Option.some_inj, compare_lt_iff_lt]
          omega
      | negative => exact iff_of_true (by simp only [Sign.apply]; omega) rfl
  | negative =>
      cases other with
      | positive => exact iff_of_false (by simp only [Sign.apply]; omega) Bool.false_ne_true
      | negative =>
          rw [UnpackedFloat.lt, UnpackedFloat.compare, ← hcompare]
          simp only [Sign.apply, beq_iff_eq, Option.some_inj, Ordering.swap_eq_lt,
            compare_gt_iff_gt]
          omega

/-- What is subtracted is the lesser one just if the difference is positive,
and the difference can be packed. -/
theorem sub_spec (hu : AllCanonical u) (hv : AllCanonical v) :
    AllFits (UnpackedFloat.sub Format.binary64 u v) ∧
      isPositive (UnpackedFloat.sub Format.binary64 u v) = v.lt u := by
  cases u with
  | notANumber => cases v <;> exact ⟨trivial, rfl⟩
  | infinity sign =>
      cases v with
      | notANumber => exact ⟨trivial, rfl⟩
      | infinity other => cases sign <;> cases other <;> exact ⟨trivial, rfl⟩
      | zero other => cases sign <;> exact ⟨trivial, rfl⟩
      | finite other n f hn => cases sign <;> cases other <;> exact ⟨trivial, rfl⟩
  | zero sign =>
      cases v with
      | notANumber => exact ⟨trivial, rfl⟩
      | infinity other => cases other <;> exact ⟨trivial, rfl⟩
      | zero other => cases sign <;> cases other <;> exact ⟨trivial, rfl⟩
      | finite other n f hn => cases other <;> exact ⟨hv.toFits, rfl⟩
  | finite sign m e hm =>
      cases v with
      | notANumber => exact ⟨trivial, rfl⟩
      | infinity other => cases sign <;> cases other <;> exact ⟨trivial, rfl⟩
      | zero other => cases sign <;> exact ⟨hu.toFits, rfl⟩
      | finite other n f hn =>
          obtain ⟨hfits, hpositive⟩ := normalize_spec
            (sign.apply (m <<< (e - min e f).toNat : Nat) -
              other.apply (n <<< (f - min e f).toNat : Nat))
            (le_min hu.low hv.low)
          exact ⟨hfits, Bool.eq_iff_iff.mpr
            (hpositive.trans (hu.zero_lt_sub_iff hv hm hn sign other))⟩

/-- However close two numbers are, their difference is not lost. -/
theorem zero_lt_sub_iff : 0 < x - y ↔ y < x := by
  obtain ⟨hfits, hpositive⟩ := sub_spec (allCanonical_unpack x.toModel.toBits.toBitVec)
    (allCanonical_unpack y.toModel.toBits.toBitVec)
  rw [zero_lt_iff, lt_iff]
  exact Bool.eq_iff_iff.mp ((isPositive_pack hfits).trans hpositive)

end Volley.Double
