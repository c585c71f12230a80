import Volley.Proofs.Number.Difference
import Volley.Proofs.Number.Sum

/-!
# Durations from double precision

A double-precision number that is greater than zero is a duration when it is narrowed, though
perhaps the duration zero or an infinite one. Cut off at a finite number, it is finite.
-/

namespace Volley.Single

open Float.Model Float.Model.UnpackedFloat

variable {x most : Float32} {m k : Nat}

theorem isDuration_zero : IsDuration 0 :=
  .inl ⟨0, 0, holds_zero⟩

theorem Spells.isDuration {u : UnpackedFloat} (hu : Spells u .positive m k) :
    IsDuration (.ofModel (.pack u)) := by
  rcases hu.shape with ⟨-, rfl⟩ | ⟨hm, rfl⟩
  · exact isDuration_zero
  · exact isDuration_of_isUnpacked ⟨hu.canonical, hm, rfl⟩ rfl

theorem isDuration_narrow {time : Float} (hpos : 0 < time) : IsDuration (narrow time) := by
  rw [Double.zero_lt_iff] at hpos
  rw [narrow]
  generalize time.toModel.unpack = u at hpos
  cases u with
  | notANumber => cases hpos
  | zero sign => cases hpos
  | infinity sign =>
      obtain rfl := (Double.isPositive_infinity sign).mp hpos
      exact .inr rfl
  | finite sign m e hm =>
      obtain rfl := (Double.isPositive_finite sign hm e).mp hpos
      obtain ⟨n, k, hspells, -⟩ := round_spells hm e .positive
      exact hspells.isDuration

/-! ## Cutting off -/

theorem not_nan_of_finite (hx : x.isFinite = true) : x.isNaN = false := by
  change x.toModel.unpack.isNaN = false
  rw [isFinite_eq] at hx
  cases hunpack : x.toModel.unpack with
  | notANumber =>
      rw [hunpack] at hx
      cases hx
  | _ => rfl

theorem Holds.isFinite (hx : Holds x m k) : x.isFinite = true := by
  rw [isFinite_eq]
  rcases hx.unpack_cases with hzero | ⟨q, e, hq, hfinite⟩
  · rw [hzero]
    rfl
  · rw [hfinite]
    rfl

theorem IsInfinite.lt_of_finite (hx : IsInfinite x) (hmost : most.isFinite = true) : most < x := by
  rw [lt_iff, hx.unpack_eq]
  rw [isFinite_eq] at hmost
  cases hunpack : most.toModel.unpack with
  | notANumber | infinity =>
      rw [hunpack] at hmost
      cases hmost
  | zero | finite => rfl

theorem IsDuration.not_nan (hx : IsDuration x) : x.isNaN = false := by
  rcases hx with ⟨m, k, hx⟩ | hinfinite
  · exact not_nan_of_finite hx.isFinite
  · change x.toModel.unpack.isNaN = false
    rw [hinfinite.unpack_eq]
    rfl

theorem IsDuration.smaller_eq (hx : IsDuration x) (hmost : most.isFinite = true) :
    smaller x most = if most < x then most else x := by
  rw [smaller, hx.not_nan, not_nan_of_finite hmost]
  rfl

theorem IsDuration.finite_of_not_lt (hx : IsDuration x) (hmost : most.isFinite = true)
    (hnot : ¬most < x) :
    x.isFinite = true := by
  rcases hx with ⟨m, k, hx⟩ | hinfinite
  · exact hx.isFinite
  · exact absurd (hinfinite.lt_of_finite hmost) hnot

theorem IsDuration.smaller_bounds (hx : IsDuration x) (hmost : most.isFinite = true)
    (hnonneg : 0 ≤ most) :
    (smaller x most).isFinite = true ∧ 0 ≤ smaller x most ∧ smaller x most ≤ most := by
  rw [hx.smaller_eq hmost]
  split
  · exact ⟨hmost, hnonneg, (le_iff_value hmost hmost).mpr le_rfl⟩
  · rename_i hnot
    have hfinite := hx.finite_of_not_lt hmost hnot
    refine ⟨hfinite, hx.nonneg, (le_iff_value hfinite hmost).mpr ?_⟩
    exact not_lt.mp (mt (lt_iff_value hmost hfinite).mpr hnot)

end Volley.Single
