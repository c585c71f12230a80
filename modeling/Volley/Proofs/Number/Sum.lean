import Volley.Proofs.Number.Value

/-!
# Sums that are not negative

The sum of two numbers that are finite and not negative is such a number again, or it is infinite.
-/

namespace Volley.Single

open Float.Model Float.Model.UnpackedFloat
open Volley.Nearest

/-- A number that is not negative, finite or not. -/
def IsDuration (x : Float32) : Prop :=
  (∃ m k, Holds x m k) ∨ IsInfinite x

variable {x y : Float32} {m k n j : Nat}

theorem Holds.nonneg (hx : Holds x m k) : 0 ≤ x :=
  (holds_zero.le_iff_value hx).mpr (by omega)

theorem IsDuration.nonneg (hx : IsDuration x) : 0 ≤ x := by
  rcases hx with ⟨m, k, hx⟩ | hinfinite
  · exact hx.nonneg
  · exact hinfinite.le holds_zero

theorem isDuration_of_isUnpacked {u : UnpackedFloat} (hu : IsUnpacked u m k)
    (hx : x.toModel = .pack u) :
    IsDuration x := by
  by_cases hk : k < 254
  · exact .inl ⟨m, k, holds_of_isUnpacked hu hk hx⟩
  · obtain ⟨-, hm, rfl⟩ := hu
    refine .inr ?_
    change x.toModel.toBits.toBitVec.toNat = _
    rw [hx]
    exact congrArg BitVec.toNat (pack_of_large hm (by omega))

theorem toModel_add (x y : Float32) :
    (x + y).toModel = .pack (add Format.binary32 x.toModel.unpack y.toModel.unpack) := rfl

theorem add_finite (hm : 0 < m) (hn : 0 < n) (k j : Nat) :
    add Format.binary32 (.finite .positive m (k - 149) hm) (.finite .positive n (j - 149) hn) =
      UnpackedFloat.round Format.binary32 .positive (m * 2 ^ (k - min k j) + n * 2 ^ (j - min k j))
        ((min k j : Nat) - 149) := by
  have hleast : min ((k : Int) - 149) (j - 149) = (min k j : Nat) - 149 := by omega
  have hfirst : ((k : Int) - 149 - ((min k j : Nat) - 149)).toNat = k - min k j := by omega
  have hsecond : ((j : Int) - 149 - ((min k j : Nat) - 149)).toNat = j - min k j := by omega
  have hpos : (0 : Int) < (m * 2 ^ (k - min k j) : Nat) + (n * 2 ^ (j - min k j) : Nat) := by
    have := Nat.mul_pos hm (Nat.two_pow_pos (k - min k j))
    omega
  rw [UnpackedFloat.add]
  dsimp only [decreaseExponent, Sign.apply]
  rw [hleast, hfirst, hsecond, Nat.shiftLeft_eq, Nat.shiftLeft_eq, UnpackedFloat.normalize,
    compare_gt_iff_gt.mpr hpos]
  rfl

theorem Holds.add (hx : Holds x m k) (hy : Holds y n j) : IsDuration (x + y) := by
  have hmodel := toModel_add x y
  rcases Nat.eq_zero_or_pos m with rfl | hm
  · rw [hx.unpack_zero] at hmodel
    rcases Nat.eq_zero_or_pos n with rfl | hn
    · rw [hy.unpack_zero] at hmodel
      refine .inl ⟨0, 0, holds_zero.canonical, holds_zero.fits, ?_⟩
      change (x + y).toModel.toBits.toBitVec.toNat = _
      rw [hmodel]
      rfl
    · have hunpacked := hy.isUnpacked hn
      obtain ⟨-, hpos, hfinite⟩ := hy.isUnpacked hn
      rw [hfinite] at hmodel hunpacked
      exact isDuration_of_isUnpacked hunpacked hmodel
  · have hunpacked := hx.isUnpacked hm
    obtain ⟨-, hpos, hfinite⟩ := hx.isUnpacked hm
    rw [hfinite] at hmodel hunpacked
    rcases Nat.eq_zero_or_pos n with rfl | hn
    · rw [hy.unpack_zero] at hmodel
      exact isDuration_of_isUnpacked hunpacked hmodel
    · obtain ⟨-, hpos, hother⟩ := hy.isUnpacked hn
      rw [hother, add_finite] at hmodel
      obtain ⟨q, i, hrounded, -⟩ := round_isUnpacked
        (Nat.add_pos_left (Nat.mul_pos hm (Nat.two_pow_pos (k - min k j))) (n * 2 ^ (j - min k j)))
          (min k j)
      exact isDuration_of_isUnpacked hrounded hmodel

theorem IsInfinite.add (hx : IsInfinite x) (hy : Holds y n j) : IsInfinite (x + y) := by
  have hinfinity : Float.Model.UnpackedFloat.add Format.binary32 x.toModel.unpack y.toModel.unpack =
      .infinity .positive := by
    rw [hx.unpack_eq]
    rcases hy.unpack_cases with hzero | ⟨q, e, hq, hfinite⟩
    · rw [hzero]
      rfl
    · rw [hfinite]
      rfl
  change (x + y).toModel.toBits.toBitVec.toNat = _
  rw [toModel_add, hinfinity]
  rfl

theorem IsDuration.add (hx : IsDuration x) (hy : Holds y n j) : IsDuration (x + y) := by
  rcases hx with ⟨m, k, hx⟩ | hinfinite
  · exact hx.add hy
  · exact .inr (hinfinite.add hy)

end Volley.Single
