import Volley.Proofs.Number.Single

/-!
# Whole parts of single-precision numbers

The whole part of a number is the greatest whole number up to it. A conversion to a
word takes the whole part and keeps it within the range of the word, so it gives
zero just for what does not reach one.
-/

namespace Volley.Single

open Float.Model Float.Model.UnpackedFloat
open Volley.Nearest

/-- What the whole part of a number can be. -/
inductive Whole where
  | undefined
  | below
  | exactly (value : ℤ)
  | above
  deriving DecidableEq

namespace Whole

def reachesOne : Whole → Bool
  | .exactly value => 1 ≤ value
  | .above => true
  | _ => false

/-- The word nearest to a whole number. -/
def saturate : Whole → UInt32
  | .exactly value => .ofNatClamp value.toNat
  | .above => .ofNatClamp (UInt32.size - 1)
  | _ => 0

end Whole

def wholePart : UnpackedFloat → Whole
  | .notANumber => .undefined
  | .infinity .positive => .above
  | .infinity .negative => .below
  | .zero _ => .exactly 0
  | .finite sign m e _ => .exactly ⌊(sign.apply m : ℚ) * 2 ^ e⌋

def floor (x : Float32) : Whole :=
  wholePart x.toModel.unpack

/-! ## Conversion to words -/

theorem floor_mul_two_pow (m : Nat) (e : Int) :
    ⌊(m : ℚ) * 2 ^ e⌋ = (m * 2 ^ e.toNat / 2 ^ (-e).toNat : Nat) := by
  rcases Int.le_total 0 e with hpos | hneg
  · obtain ⟨n, rfl⟩ := Int.eq_ofNat_of_zero_le hpos
    rw [show (-(n : Int)).toNat = 0 by omega, Int.toNat_natCast, pow_zero,
      Nat.div_one, zpow_natCast]
    exact_mod_cast Int.floor_natCast (R := ℚ) (m * 2 ^ n)
  · obtain ⟨n, hn⟩ := Int.eq_ofNat_of_zero_le (Int.neg_nonneg_of_nonpos hneg)
    obtain rfl : e = -n := by omega
    rw [show (-(n : Int)).toNat = 0 by omega, neg_neg, Int.toNat_natCast, pow_zero, Nat.mul_one,
      zpow_neg, zpow_natCast,
      ← div_eq_mul_inv]
    exact_mod_cast Rat.floor_natCast_div_natCast m (2 ^ n)

theorem floor_neg_mul_two_pow {m : Nat} (hm : 0 < m)
    (e : Int) : ⌊((-m : Int) : ℚ) * 2 ^ e⌋ < 0 := by
  have hpos : (0 : ℚ) < m * 2 ^ e := by positivity
  rw [Int.floor_lt]
  push_cast
  linarith

theorem roundToInt_eq (sign : Sign) (m : Nat) (e : Int) :
    roundToInt sign m e = sign.apply (m * 2 ^ e.toNat / 2 ^ (-e).toNat : Nat) := by
  have hshift : (0 - (e - (e.toNat : Int))).toNat = (-e).toNat := by omega
  simp only [roundToInt, decreaseExponent, shiftToExponent, Nat.shiftLeft_eq, shiftRight_exact,
    Int.sub_zero, hshift]

theorem toUInt32_eq_saturate (x : Float32) : x.toUInt32 = (floor x).saturate := by
  have hmodel : x.toUInt32 = x.toModel.unpack.toUInt32 := rfl
  rw [hmodel, floor, UnpackedFloat.toUInt32]
  cases x.toModel.unpack with
  | notANumber => rfl
  | infinity sign => cases sign <;> rfl
  | zero sign => rfl
  | finite sign m e hm =>
      rw [wholePart, toInt, roundToInt_eq]
      cases sign with
      | positive =>
          rw [show (Sign.positive.apply (m : Int) : ℚ) = m from Int.cast_natCast m,
            floor_mul_two_pow]
          rfl
      | negative =>
          -- Below zero the conversion rounds up, but zero is the least word anyway.
          have hfloor := floor_neg_mul_two_pow hm e
          change UInt32.ofNatClamp (-((_ : Nat) : Int)).toNat = UInt32.ofNatClamp (Int.toNat _)
          rw [show Sign.negative.apply (m : Int) = -m from rfl, Int.toNat_of_nonpos hfloor.le,
            Int.toNat_of_nonpos (Int.neg_nonpos_of_nonneg (Int.natCast_nonneg _))]

theorem ofNatClamp_ne_zero_iff (n : Nat) : UInt32.ofNatClamp n ≠ 0 ↔ 0 < n := by
  rw [UInt32.ofNatClamp, Ne, ← UInt32.toNat_inj]
  split
  · rw [UInt32.toNat_ofNatLT, Nat.pos_iff_ne_zero]
    rfl
  · rename_i hlarge
    rw [UInt32.toNat_ofNatLT]
    change UInt32.size - 1 ≠ 0 ↔ 0 < n
    exact iff_of_true (by decide) (Nat.lt_of_lt_of_le (by decide) (Nat.not_lt.mp hlarge))

theorem Whole.saturate_ne_zero_iff (whole : Whole) :
    whole.saturate ≠ 0 ↔ whole.reachesOne = true := by
  cases whole with
  | undefined | below => exact iff_of_false (not_not_intro rfl) nofun
  | exactly value =>
      rw [saturate, ofNatClamp_ne_zero_iff, Int.lt_toNat, reachesOne, decide_eq_true_iff]
      exact Iff.rfl
  | above => exact iff_of_true (by decide) rfl

/-! ## Numbers that do not reach one -/

theorem unpack_zero_eq : (0 : Float32).toModel.unpack = .zero .positive :=
  Single.unpack_zero (by decide +kernel)

theorem reachesOne_of_le_zero {x : Float32} (hx : x ≤ 0) : (floor x).reachesOne = false := by
  rw [le_iff, unpack_zero_eq] at hx
  rw [floor]
  generalize x.toModel.unpack = u at hx
  match u, hx with
  | .infinity .negative, _ => rfl
  | .zero sign, _ => rfl
  | .finite .negative m e hm, _ =>
      have hfloor := floor_neg_mul_two_pow hm e
      exact decide_eq_false (Int.not_le.mpr (hfloor.trans Int.one_pos))

theorem toModel_mul (x y : Float32) :
    (x * y).toModel = .pack (mul Format.binary32 x.toModel.unpack y.toModel.unpack) := rfl

theorem unpack_eq_zero_of_beq {x : Float32}
    (hx : (x == 0) = true) : ∃ sign, x.toModel.unpack = .zero sign := by
  change x.toModel.unpack.beq (0 : Float32).toModel.unpack = true at hx
  rw [unpack_zero_eq] at hx
  generalize x.toModel.unpack = u at hx
  match u, hx with
  | .zero sign, _ => exact ⟨sign, rfl⟩

/-- What is multiplied by zero comes to zero, or to no number. -/
theorem reachesOne_mul_zero {ratio : Float32} (hratio : (ratio == 0) = true) (x : Float32) :
    (floor (x * ratio)).reachesOne = false := by
  obtain ⟨sign, hzero⟩ := unpack_eq_zero_of_beq hratio
  have hnothing : (wholePart
      (UnpackedFloat.unpack Format.binary32 (packedNaN Format.binary32))).reachesOne = false := by
    rw [unpack_packedNaN]
    rfl
  have hcancelled (sign : Sign) :
      (wholePart (UnpackedFloat.unpack Format.binary32
        (packedZero Format.binary32 sign))).reachesOne = false := by
    rw [unpack_packedZero]
    rfl
  rw [floor, toModel_mul, hzero]
  cases x.toModel.unpack with
  | notANumber | infinity other => exact hnothing
  | zero other | finite other m e hm => exact hcancelled _

/-! ## Multiplication by one -/

theorem canonical_of_unpack {b : BitVec 32} {sign : Sign} {m : Nat} {e : Int} {hm : 0 < m}
    (hunpack : unpack Format.binary32 b = .finite sign m e hm) :
    ∃ k : Nat, Canonical m k ∧ e = k - 149 := by
  have hmantissa := Nat.mod_lt b.toNat (show 0 < 2 ^ 23 by decide)
  have hexponent := toNat_unpackExponent b
  rw [UnpackedFloat.unpack] at hunpack
  dsimp only at hunpack
  split at hunpack
  · split at hunpack <;> cases hunpack
  · split at hunpack
    · rename_i hzero
      split at hunpack
      · cases hunpack
      · cases hunpack
        refine ⟨0, ⟨?_, Or.inl rfl⟩, ?_⟩
        · rw [toNat_unpackMantissa]
          omega
        · rw [hzero]
          rfl
    · rename_i hpos
      cases hunpack
      have hdigits : (1#1 ++ (unpackMantissa b : BitVec
          Format.binary32.mantissaBitsWithoutImplicit)).toNat =
          2 ^ 23 + b.toNat % 2 ^ 23 := by
        refine (toNat_append 1#1 _).trans ?_
        rw [toNat_unpackMantissa]
        rfl
      have hexponent := mt (unpackExponent_eq_zero_iff b).mpr hpos
      refine ⟨b.toNat / 2 ^ 23 % 2 ^ 8 - 1, ⟨?_, Or.inr ?_⟩, ?_⟩
      · rw [hdigits]
        omega
      · rw [hdigits]
        omega
      · rw [toNat_unpackExponent]
        change ((b.toNat / 2 ^ 23 % 2 ^ 8 : Nat) : Int) - ((127 : Nat) + (23 : Nat)) = _
        omega

theorem shiftToTargetExponent_mul_one {m k : Nat} (hm : 0 < m) (hcanonical : Canonical m k) :
    shiftToTargetExponent Format.binary32 (m * 2 ^ 23) (k - 149 - 23) .exact =
      (ExtendedMantissa.ofMantissaAndAccuracy (m * 2 ^ 23) .exact >>> 23, (k : Int) - 149) := by
  have htotal : totalExponent (m * 2 ^ 23) (k - 149 - 23) = totalExponent m (k - 149) := by
    rw [totalExponent, totalExponent, log2_mul_two_pow hm]
    omega
  rw [shiftToTargetExponent, htotal, targetExponent_eq hm, hcanonical.excess_eq, shiftToExponent]
  have hshift : ((k : Int) - 149 - (k - 149 - 23)).toNat = 23 := by omega
  rw [hshift]
  refine Prod.ext rfl ?_
  simp only
  omega

theorem roundWithAccuracy_mul_one {m k : Nat} (hm : 0 < m) (hcanonical : Canonical m k)
    (sign : Sign) :
    roundWithAccuracy Format.binary32 sign (m * 2 ^ 23) (k - 149 - 23) .exact =
      .finite sign m (k - 149) hm := by
  have hrounded : (ExtendedMantissa.ofMantissaAndAccuracy (m * 2 ^ 23)
      .exact >>> 23).roundedMantissa = m := by
    rw [roundedMantissa_shiftRight, Nat.mul_div_cancel _ (Nat.two_pow_pos 23), Nat.mul_mod_left]
    rfl
  rw [roundWithAccuracy, shiftToTargetExponent_mul_one hm hcanonical]
  dsimp only
  rw [hrounded, shiftToTargetExponent_canonical hm hcanonical]
  exact dif_neg hm.ne'

theorem unpack_one :
    (1 : Float32).toModel.unpack = .finite .positive (2 ^ 23) (-23) (by decide) := by
  rfl

theorem pack_unpack_toModel (x : Float32) : Float32.Model.pack x.toModel.unpack = x.toModel := by
  obtain ⟨⟨bits, hvalid⟩⟩ := x
  have hbits : pack Format.binary32 (UnpackedFloat.unpack Format.binary32 bits.toBitVec) =
      bits.toBitVec := by
    rw [pack_unpack]
    split
    · rename_i hnan
      obtain ⟨hexponent, hmantissa⟩ := of_decide_eq_true hnan
      exact (hvalid.eq_packedNaN hexponent hmantissa).symm
    · rfl
  rw [Float32.Model.pack, Float32.Model.mk.injEq]
  exact congrArg UInt32.ofBitVec hbits

theorem mul_one_eq (x : Float32) : x * 1 = x := by
  have hproduct : mul Format.binary32 x.toModel.unpack (1 : Float32).toModel.unpack =
      x.toModel.unpack := by
    rw [unpack_one]
    cases hunpack : x.toModel.unpack with
    | notANumber => rfl
    | infinity sign | zero sign => cases sign <;> rfl
    | finite sign m e hm =>
        obtain ⟨k, hcanonical, rfl⟩ := canonical_of_unpack hunpack
        cases sign <;> exact roundWithAccuracy_mul_one hm hcanonical _
  have hmodel : (x * 1).toModel = x.toModel := by
    rw [toModel_mul, hproduct, pack_unpack_toModel]
  exact congrArg Float32.ofModel hmodel

end Volley.Single
