import Mathlib
import Volley.Proofs.Number.Value

/-!
# Rounding to the nearest number

The result of an operation is the number nearest to the real result: no number that has at most
twenty-four binary digits is closer to it. Beyond the greatest finite number there is an infinity
instead. How far off the result can be follows from the size of the real one.
-/

namespace Volley.Single

open Float.Model Float.Model.UnpackedFloat
open Volley.Nearest

/-! ## Residual digits -/

/-- What an extended mantissa stands for: its two residual bits tell where a
number lies above the mantissa. -/
def Stands (em : ExtendedMantissa) (r : ℝ) : Prop :=
  match em.roundBit, em.stickyBit with
  | false, false => r = em.mantissa
  | false, true => em.mantissa < r ∧ r + r < em.mantissa + em.mantissa + 1
  | true, false => r + r = em.mantissa + em.mantissa + 1
  | true, true => em.mantissa + em.mantissa + 1 < r + r ∧ r < em.mantissa + 1

theorem stands_exact (m : Nat) : Stands (.ofMantissaAndAccuracy m .exact) m := by
  rfl

theorem Stands.bounds {em : ExtendedMantissa} {r : ℝ}
    (h : Stands em r) : em.mantissa ≤ r ∧ r < em.mantissa + 1 := by
  obtain ⟨m, roundBit, stickyBit⟩ := em
  cases roundBit <;> cases stickyBit <;> simp only [Stands] at h <;> constructor <;> linarith

theorem Stands.shiftRightOne {em : ExtendedMantissa} {r : ℝ}
    (h : Stands em r) : Stands em.shiftRightOne (r / 2) := by
  obtain ⟨m, roundBit, stickyBit⟩ := em
  have hsplit : (m : ℝ) = 2 * (m / 2 : Nat) + (m % 2 : Nat) := by
    exact_mod_cast (Nat.div_add_mod m 2).symm
  rw [ExtendedMantissa.shiftRightOne]
  rcases Nat.mod_two_eq_zero_or_one m with hdigit | hdigit <;> rw [hdigit] at hsplit ⊢ <;>
    push_cast at hsplit <;>
    cases roundBit <;> cases stickyBit <;> simp only [Stands, bne_self_eq_false, Bool.or_self,
      Bool.or_true, Bool.or_false,
      show ((1 : Nat) != 0) = true from rfl] at h ⊢ <;>
    first | linarith | constructor <;> linarith

theorem Stands.shiftRight {em : ExtendedMantissa} {r : ℝ} (h : Stands em r)
    (n : Nat) : Stands (em >>> n) (r / 2 ^ n) := by
  induction n with
  | zero =>
      rw [pow_zero, div_one]
      exact h
  | succ n ih =>
      rw [shiftRight_succ, pow_succ, ← div_div]
      exact ih.shiftRightOne

theorem Stands.abs_roundedMantissa_sub_le {em : ExtendedMantissa} {r : ℝ} (h : Stands em r) :
    |(em.roundedMantissa : ℝ) - r| ≤ 1 / 2 := by
  obtain ⟨m, roundBit, stickyBit⟩ := em
  have heven : ((m % 2 : Nat) : ℝ) = 0 ∨ ((m % 2 : Nat) : ℝ) = 1 := by
    exact_mod_cast Nat.mod_two_eq_zero_or_one m
  rw [abs_le]
  cases roundBit <;> cases stickyBit <;>
    simp only [Stands, ExtendedMantissa.roundedMantissa, ExtendedMantissa.accuracy,
      Accuracy.roundToNearestEven] at h ⊢ <;>
    push_cast <;> first | constructor <;> linarith | rcases heven with heven | heven <;>
      constructor <;> linarith

/-! ## Nearest numbers -/

/-- A real number that has at most twenty-four binary digits, however great it is. -/
structure Representable (q : ℝ) : Prop where
  digits : ∃ (n : ℤ) (k : ℕ), |n| ≤ 2 ^ 24 ∧ q = n * 2 ^ ((k : ℤ) - 149)

theorem representable_zero : Representable 0 :=
  ⟨0, 0, by norm_num, by simp⟩

theorem Representable.factor_mul {q : ℝ} (hq : Representable q)
    (sign : Sign) : Representable (factor sign * q) := by
  obtain ⟨n, k, hn, rfl⟩ := hq
  cases sign with
  | negative => exact ⟨-n, k, by rwa [abs_neg], by rw [factor]; push_cast; ring⟩
  | positive => exact ⟨n, k, hn, by rw [factor, one_mul]⟩

variable {x y : Float32} {u v : UnpackedFloat} {sign other : Sign} {m k n j : Nat}

theorem representable_value (x : Float32) : Representable (value x) := by
  by_cases hx : x.isFinite = true
  · obtain ⟨sign, m, k, -, hu⟩ := exists_spells hx
    rw [value, hu.value_eq]
    refine Representable.factor_mul ⟨m, k, ?_, by push_cast; rfl⟩ sign
    have := hu.canonical.1
    rw [abs_of_nonneg (by positivity)]
    exact_mod_cast this.le
  · rw [value_of_not_finite hx]
    exact representable_zero

/-- `x` is the single-precision number that a real number is rounded to. -/
structure Rounds (x : Float32) (r : ℝ) : Prop where
  finite : x.isFinite = true
  nearest : ∀ q, Representable q → |value x - r| ≤ |q - r|

/-- `x` is what an operation gives whose real result is `r`. -/
structure Approximates (x : Float32) (r : ℝ) : Prop where
  cases : Rounds x r ∨ x.isFinite = false ∧ 2 ^ 127 ≤ |r|

theorem Rounds.eq_of_representable {r : ℝ} (h : Rounds x r)
    (hr : Representable r) : value x = r := by
  have hnone := h.nearest r hr
  rw [sub_self, abs_zero] at hnone
  exact sub_eq_zero.mp (abs_nonpos_iff.mp hnone)

/-- A whole number next to the count of a power of two is the nearest multiple of it, and if the
count has all its digits then there is no nearer number below. -/
theorem nearest_of_count {q : Nat} {r : ℝ} {e : ℕ} (hr : 0 ≤ r)
    (hq : |(q : ℝ) - r / 2 ^ ((e : ℤ) - 149)| ≤ 1 / 2)
    (hdigits : e = 0 ∨ 2 ^ 23 ≤ r / 2 ^ ((e : ℤ) - 149)) {p : ℝ} (hp : Representable p) :
    |q * 2 ^ ((e : ℤ) - 149) - r| ≤ |p - r| := by
  obtain ⟨n, k, hn, rfl⟩ := hp
  have hpower := power_pos e
  obtain ⟨count, rfl⟩ : ∃ count, r = count * 2 ^ ((e : ℤ) - 149) :=
    ⟨r / 2 ^ ((e : ℤ) - 149), by field_simp⟩
  rw [mul_div_cancel_right₀ _ hpower.ne'] at hq hdigits
  have hwhole (w : ℤ) : |(q : ℝ) - count| ≤ |w - count| := by
    rcases eq_or_ne w q with rfl | hne
    · rw [Int.cast_natCast]
    · have hapart : (1 : ℝ) ≤ |(w : ℝ) - q| := by
        exact_mod_cast Int.one_le_abs (sub_ne_zero.mpr hne)
      have htriangle := abs_sub_le (w : ℝ) count q
      rw [abs_sub_comm count] at htriangle
      linarith
  rw [← sub_mul, abs_mul, abs_of_pos hpower]
  by_cases hfiner : e ≤ k
  · obtain ⟨gap, rfl⟩ := Nat.exists_eq_add_of_le hfiner
    have hmultiple : (n : ℝ) * 2 ^ (((e + gap : ℕ) : ℤ) - 149) =
        (n * 2 ^ gap : ℤ) * 2 ^ ((e : ℤ) - 149) := by
      rw [show ((e + gap : ℕ) : ℤ) - 149 = gap + (e - 149) by push_cast; ring,
        zpow_add₀ two_ne_zero, zpow_natCast]
      push_cast
      ring
    rw [hmultiple, ← sub_mul, abs_mul, abs_of_pos hpower]
    exact mul_le_mul_of_nonneg_right (hwhole _) hpower.le
  · have hcount := hdigits.resolve_left (by omega)
    have hbelow : (n : ℝ) * 2 ^ ((k : ℤ) - 149) ≤ 2 ^ 23 * 2 ^ ((e : ℤ) - 149) := by
      obtain ⟨gap, rfl⟩ := Nat.exists_eq_add_of_lt (Nat.lt_of_not_le hfiner)
      have hn' : (n : ℝ) ≤ 2 ^ 24 := by exact_mod_cast (le_abs_self n).trans hn
      have hgap : (1 : ℝ) ≤ 2 ^ gap := one_le_pow₀ one_le_two
      rw [show ((k + gap + 1 : ℕ) : ℤ) - 149 = (gap + 1 : ℕ) + (k - 149) by push_cast; ring,
        zpow_add₀ two_ne_zero,
        zpow_natCast, ← mul_assoc]
      refine mul_le_mul_of_nonneg_right ?_ (power_pos k).le
      rw [pow_succ (2 : ℝ) gap]
      linarith
    have hstep := hwhole 8388608
    rw [show ((8388608 : ℤ) : ℝ) = 2 ^ 23 by norm_num] at hstep
    rw [abs_of_nonpos (show (2 : ℝ) ^ 23 - count ≤ 0 by linarith)] at hstep
    calc |(q : ℝ) - count| * 2 ^ ((e : ℤ) - 149) ≤ -(2 ^ 23 - count) * 2 ^ ((e : ℤ) - 149) :=
          mul_le_mul_of_nonneg_right hstep hpower.le
      _ = count * 2 ^ ((e : ℤ) - 149) - 2 ^ 23 * 2 ^ ((e : ℤ) - 149) := by ring
      _ ≤ count * 2 ^ ((e : ℤ) - 149) - n * 2 ^ ((k : ℤ) - 149) := by linarith
      _ ≤ |(n : ℝ) * 2 ^ ((k : ℤ) - 149) - count * 2 ^ ((e : ℤ) - 149)| := by
          rw [abs_sub_comm]
          exact le_abs_self _

/-! ## Rounding a significand -/

theorem mantissa_ofMantissaAndAccuracy (m : Nat) (acc : Accuracy) :
    (ExtendedMantissa.ofMantissaAndAccuracy m acc).mantissa = m := by
  cases acc with
  | exact => rfl
  | inexact relative => cases relative <;> rfl

/-- How far the digits are shifted is what brings their count to twenty-four at most, and to no
fewer unless the power is the least one. -/
theorem shifted_bounds {r : ℝ} {t gap : ℕ} {e : ℤ} (hlow : m ≤ r) (hhigh : r < m + 1)
    (hgap : e + gap = (t : ℤ) - 149) (ht : max (totalExponent m e - 24) (-149) = (t : ℤ) - 149) :
    r / 2 ^ gap < 2 ^ 24 ∧ (t = 0 ∨ 2 ^ 23 ≤ r / 2 ^ gap) := by
  rw [totalExponent] at ht
  have hpower : (0 : ℝ) < 2 ^ gap := by positivity
  refine ⟨?_, ?_⟩
  · have hdigits : m + 1 ≤ 2 ^ 24 * 2 ^ gap := by
      rw [← Nat.pow_add]
      exact Nat.lt_log2_self.trans_le (Nat.pow_le_pow_right two_pos (by omega))
    have hdigits' : (m : ℝ) + 1 ≤ 2 ^ 24 * 2 ^ gap := by exact_mod_cast hdigits
    rw [div_lt_iff₀ hpower]
    linarith
  · by_cases hleast : t = 0
    · exact Or.inl hleast
    · have hne : m ≠ 0 := by
        rintro rfl
        rw [Nat.log2_zero] at ht
        omega
      have hdigits : 2 ^ 23 * 2 ^ gap ≤ m := by
        rw [← Nat.pow_add]
        exact (Nat.pow_le_pow_right two_pos (by omega)).trans (Nat.log2_self_le hne)
      have hdigits' : (2 : ℝ) ^ 23 * 2 ^ gap ≤ m := by exact_mod_cast hdigits
      refine Or.inr ?_
      rw [le_div_iff₀ hpower]
      linarith

/-- A rounded significand that comes to twenty-five digits is a power of two, and
is written with one digit less. -/
theorem exists_spells_rounded {q t : Nat} (hq : q ≤ 2 ^ 24) (hleast : t = 0 ∨ 2 ^ 23 ≤ q)
    (sign : Sign) :
    ∃ n k, (let final := (shiftToTargetExponent Format.binary32 q (t - 149) .exact)
      Spells (if h : final.1.mantissa = 0 then .zero sign
        else .finite sign final.1.mantissa final.2 (Nat.pos_of_ne_zero h)) sign n k) ∧
      (n * 2 ^ ((k : ℤ) - 149) : ℝ) = q * 2 ^ ((t : ℤ) - 149) := by
  rcases Nat.eq_zero_or_pos q with rfl | hpos
  · have hmantissa : (shiftToTargetExponent Format.binary32 0 (t - 149) .exact).1.mantissa = 0 := by
      rw [shiftToTargetExponent, shiftToExponent]
      dsimp only
      rw [shiftRight_exact, Nat.zero_div]
    refine ⟨0, 0, ⟨⟨by omega, Or.inl rfl⟩, Or.inl ⟨rfl, dif_pos hmantissa⟩⟩, ?_⟩
    rw [Nat.cast_zero, zero_mul, zero_mul]
  · rcases Nat.lt_or_eq_of_le hq with hlt | rfl
    · refine ⟨q, t, ?_, rfl⟩
      dsimp only
      rw [shiftToTargetExponent_canonical hpos ⟨hlt, hleast⟩]
      exact ⟨⟨hlt, hleast⟩, Or.inr ⟨hpos, dif_neg hpos.ne'⟩⟩
    · refine ⟨2 ^ 23, t + 1, ?_, ?_⟩
      · dsimp only
        rw [shiftToTargetExponent_carry, shiftRight_exact]
        exact ⟨⟨by omega, Or.inr le_rfl⟩,
          Or.inr ⟨by omega, dif_neg (show ¬2 ^ 24 / 2 ^ 1 = 0 by decide)⟩⟩
      · rw [show ((t + 1 : ℕ) : ℤ) - 149 = 1 + (t - 149) by push_cast; ring, zpow_add₀ two_ne_zero]
        push_cast
        ring

/-- Rounding moves the digits to the exponent that twenty-four of them allow, and keeps the number
nearest to what they stand for. -/
theorem roundWithAccuracy_spells {acc : Accuracy} {r : ℝ} {e : ℤ}
    (hstands : Stands (.ofMantissaAndAccuracy m acc) r)
    (he : e ≤ Format.binary32.targetExponent (totalExponent m e)) (sign : Sign) :
    ∃ n k, Spells (roundWithAccuracy Format.binary32 sign m e acc) sign n k ∧
      ∀ p, Representable p → |n * 2 ^ ((k : ℤ) - 149) - r * 2 ^ e| ≤ |p - r * 2 ^ e| := by
  obtain ⟨hlow, hhigh⟩ := hstands.bounds
  rw [mantissa_ofMantissaAndAccuracy] at hlow hhigh
  change e ≤ max (totalExponent m e - 24) (-149) at he
  obtain ⟨t, ht⟩ : ∃ t : ℕ, max (totalExponent m e - 24) (-149) = (t : ℤ) - 149 :=
    ⟨(max (totalExponent m e - 24) (-149) + 149).toNat, by omega⟩
  obtain ⟨gap, hgap⟩ : ∃ gap : ℕ, e + gap = (t : ℤ) - 149 := ⟨((t : ℤ) - 149 - e).toNat, by omega⟩
  have hshift : shiftToTargetExponent Format.binary32 m e acc =
      (ExtendedMantissa.ofMantissaAndAccuracy m acc >>> gap, (t : ℤ) - 149) := by
    have htarget : Format.binary32.targetExponent (totalExponent m e) = (t : ℤ) - 149 := ht
    rw [shiftToTargetExponent, shiftToExponent, htarget, show ((t : ℤ) - 149 - e).toNat =
      gap by omega, hgap]
  obtain ⟨hfew, hmany⟩ := shifted_bounds hlow hhigh hgap ht
  have hrounded := (hstands.shiftRight gap).abs_roundedMantissa_sub_le
  rw [roundWithAccuracy, hshift]
  dsimp only
  generalize (ExtendedMantissa.ofMantissaAndAccuracy m acc >>> gap).roundedMantissa = q at hrounded
  obtain ⟨hbelow, habove⟩ := abs_le.mp hrounded
  have hq : q ≤ 2 ^ 24 := by
    have : (q : ℝ) < 2 ^ 24 + 1 := by linarith
    exact Nat.lt_succ_iff.mp (by exact_mod_cast this)
  have hleast : t = 0 ∨ 2 ^ 23 ≤ q := by
    refine hmany.imp_right fun hmany => ?_
    have : (2 : ℝ) ^ 23 < q + 1 := by linarith
    exact Nat.lt_succ_iff.mp (by exact_mod_cast this)
  obtain ⟨n, k, hspells, hvalue⟩ := exists_spells_rounded hq hleast sign
  have hcount : r * 2 ^ e = r / 2 ^ gap * 2 ^ ((t : ℤ) - 149) := by
    rw [← hgap, zpow_add₀ two_ne_zero, zpow_natCast]
    field_simp
  have hback : r * 2 ^ e / 2 ^ ((t : ℤ) - 149) = r / 2 ^ gap := by
    rw [hcount, mul_div_cancel_right₀ _ (power_pos t).ne']
  refine ⟨n, k, hspells, fun p hp => ?_⟩
  rw [hvalue]
  refine nearest_of_count ?_ ?_ ?_ hp
  · have := (Nat.cast_nonneg m).trans hlow
    positivity
  · rwa [hback]
  · rwa [hback]

theorem abs_factor_mul_sub (sign : Sign) (a b : ℝ) :
    |factor sign * a - b| = |a - factor sign * b| := by
  cases sign with
  | negative =>
      rw [factor, neg_one_mul, neg_one_mul, sub_neg_eq_add, ← abs_neg, neg_sub,
        sub_neg_eq_add, add_comm]
  | positive => rw [factor, one_mul, one_mul]

theorem Spells.approximates (hu : Spells u sign m k) {r : ℝ} (hr : 0 ≤ r)
    (hnearest : ∀ p, Representable p → |m * 2 ^ ((k : ℤ) - 149) - r| ≤ |p - r|) :
    Approximates (.ofModel (.pack u)) (factor sign * r) := by
  by_cases hk : k < 254
  · refine ⟨Or.inl ⟨?_, fun p hp => ?_⟩⟩
    · rw [isFinite_eq, unpack_ofModel_pack, hu.unpack_pack hk]
      rcases hu.shape with ⟨-, rfl⟩ | ⟨hm, rfl⟩ <;> rfl
    · rw [value, unpack_ofModel_pack, hu.unpack_pack hk, hu.value_eq, ← mul_sub, abs_mul,
        abs_factor, one_mul,
        abs_sub_comm p, abs_factor_mul_sub, abs_sub_comm r]
      exact hnearest _ (hp.factor_mul sign)
  · obtain ⟨hdigits, hleast⟩ := hu.canonical
    have hm : 2 ^ 23 ≤ m := by omega
    obtain ⟨hpos, rfl⟩ := hu.shape.resolve_left (by omega)
    refine ⟨Or.inr ⟨?_, ?_⟩⟩
    · rw [isFinite_eq, unpack_ofModel_pack, pack_of_large hpos (by omega), unpack_packedInfinity]
      rfl
    · rw [abs_mul, abs_factor, one_mul, abs_of_nonneg hr]
      have hnone := hnearest 0 representable_zero
      have hlarge : (2 : ℝ) ^ 128 ≤ m * 2 ^ ((k : ℤ) - 149) := by
        have hm' : (2 : ℝ) ^ 23 ≤ m := by exact_mod_cast hm
        have hpower : (2 : ℝ) ^ (105 : ℤ) ≤ 2 ^ ((k : ℤ) - 149) :=
          zpow_le_zpow_right₀ one_le_two (by omega)
        have hproduct := mul_le_mul hm' hpower (by positivity) (by positivity)
        refine (le_of_eq ?_).trans hproduct
        norm_num
      rw [zero_sub, abs_neg, abs_of_nonneg hr] at hnone
      have hgap := (abs_le.mp hnone).2
      have hhalf : (2 : ℝ) ^ 128 = 2 * 2 ^ 127 := by norm_num
      linarith

/-! ## Operations -/

theorem totalExponent_shiftLeft (hm : 0 < m) (s : Nat) (e : ℤ) :
    totalExponent (m <<< s) (e - s) = totalExponent m e := by
  rw [totalExponent, totalExponent, Nat.shiftLeft_eq, log2_mul_two_pow hm]
  push_cast
  ring

theorem round_spells (hm : 0 < m) (e : ℤ) (sign : Sign) :
    ∃ n k, Spells (UnpackedFloat.round Format.binary32 sign m e) sign n k ∧
      ∀ p, Representable p → |n * 2 ^ ((k : ℤ) - 149) - (m * 2 ^ e : ℝ)| ≤ |p - m * 2 ^ e| := by
  rw [UnpackedFloat.round, decreaseExponent]
  dsimp only
  generalize hs : (e - Format.binary32.targetExponent (totalExponent m e)).toNat = s
  have htotal := totalExponent_shiftLeft hm s e
  obtain ⟨n, k, hspells, hnearest⟩ :=
    roundWithAccuracy_spells (stands_exact (m <<< s)) (e := e - s) (by rw [htotal]; omega) sign
  have hsame : ((m <<< s : ℕ) : ℝ) * 2 ^ (e - s) = m * 2 ^ e := by
    rw [Nat.shiftLeft_eq, zpow_sub₀ two_ne_zero, zpow_natCast]
    push_cast
    field_simp
  rw [hsame] at hnearest
  exact ⟨n, k, hspells, hnearest⟩

theorem approximates_round (hm : 0 < m) (e : ℤ) (sign : Sign) :
    Approximates (.ofModel (.pack (UnpackedFloat.round Format.binary32 sign m e)))
      (factor sign * (m * 2 ^ e)) := by
  obtain ⟨n, k, hspells, hnearest⟩ := round_spells hm e sign
  exact hspells.approximates (by positivity) hnearest

theorem Spells.approximates_self (hu : Spells u sign m k) :
    Approximates (.ofModel (.pack u)) (unpackedValue u) := by
  rw [hu.value_eq]
  refine hu.approximates (by positivity) fun p _ => ?_
  rw [sub_self, abs_zero]
  exact abs_nonneg _

theorem spells_zero (sign : Sign) : Spells (.zero sign) sign 0 0 :=
  ⟨⟨by omega, Or.inl rfl⟩, Or.inl ⟨rfl, rfl⟩⟩

theorem approximates_normalize (w : ℤ) (e : ℤ) :
    Approximates (.ofModel (.pack (UnpackedFloat.normalize Format.binary32 w e .positive)))
      (w * 2 ^ e) := by
  rw [UnpackedFloat.normalize]
  rcases lt_trichotomy w 0 with hneg | rfl | hpos
  · rw [compare_lt_iff_lt.mpr hneg]
    obtain ⟨m, hm⟩ := Int.eq_ofNat_of_zero_le (neg_nonneg.mpr hneg.le)
    obtain rfl : w = -m := by omega
    have := approximates_round (m := m) (by omega) e .negative
    rw [neg_neg, Int.toNat_natCast]
    convert this using 1
    rw [factor]
    push_cast
    ring
  · rw [compare_eq_iff_eq.mpr rfl, Int.cast_zero, zero_mul]
    exact (spells_zero .positive).approximates_self
  · rw [compare_gt_iff_gt.mpr hpos]
    obtain ⟨m, rfl⟩ := Int.eq_ofNat_of_zero_le hpos.le
    have := approximates_round (m := m) (by omega) e .positive
    rw [factor, one_mul] at this
    rw [Int.toNat_natCast, Int.cast_natCast]
    exact this

theorem apply_eq_factor_mul (sign : Sign) (m : Nat) :
    ((sign.apply m : ℤ) : ℝ) = factor sign * m := by
  cases sign with
  | negative => rw [Sign.apply, factor]; push_cast; ring
  | positive => rw [Sign.apply, factor, one_mul, Int.cast_natCast]

theorem digits_decreaseExponent (m : Nat) {e t : ℤ} (h : t ≤ e) :
    ((decreaseExponent m e t).1 : ℝ) * 2 ^ t = m * 2 ^ e := by
  obtain ⟨gap, hgap⟩ := Int.eq_ofNat_of_zero_le (sub_nonneg.mpr h)
  obtain rfl : e = gap + t := by omega
  rw [decreaseExponent]
  dsimp only
  rw [hgap, Int.toNat_natCast, Nat.shiftLeft_eq, zpow_add₀ two_ne_zero, zpow_natCast]
  push_cast
  ring

/-- Two numbers are brought to the lesser of their exponents without loss, so
only their sum is rounded. -/
theorem Spells.approximates_add (hu : Spells u sign m k) (hv : Spells v other n j) :
    Approximates (.ofModel (.pack (UnpackedFloat.add Format.binary32 u v)))
      (unpackedValue u + unpackedValue v) := by
  rcases hu.shape with ⟨-, rfl⟩ | ⟨hm, rfl⟩
  · rcases hv.shape with ⟨-, rfl⟩ | ⟨hn, rfl⟩
    · rw [unpackedValue_zero, unpackedValue_zero, add_zero, UnpackedFloat.add]
      split <;> exact (spells_zero _).approximates_self
    · have hsum := hv.approximates_self
      rw [← zero_add (unpackedValue _)] at hsum
      exact hsum
  · rcases hv.shape with ⟨-, rfl⟩ | ⟨hn, rfl⟩
    · have hsum := hu.approximates_self
      rw [← add_zero (unpackedValue _)] at hsum
      exact hsum
    · rw [UnpackedFloat.add]
      dsimp only
      generalize hleast : min ((k : ℤ) - 149) (j - 149) = least
      have hsum := approximates_normalize (sign.apply (decreaseExponent m (k - 149) least).1 +
        other.apply (decreaseExponent n (j - 149) least).1) least
      rw [Int.cast_add, apply_eq_factor_mul, apply_eq_factor_mul, add_mul, mul_assoc, mul_assoc,
        digits_decreaseExponent m (by omega), digits_decreaseExponent n (by omega)] at hsum
      exact hsum

theorem approximates_add (hx : x.isFinite = true) (hy : y.isFinite = true) :
    Approximates (x + y) (value x + value y) := by
  obtain ⟨sign, m, k, -, hu⟩ := exists_spells hx
  obtain ⟨other, n, j, -, hv⟩ := exists_spells hy
  exact hu.approximates_add hv

theorem sub_eq_add (u v : UnpackedFloat) :
    UnpackedFloat.sub Format.binary32 u v = UnpackedFloat.add Format.binary32 u v.neg := by
  cases u <;> cases v <;> try rfl
  rename_i s m e hm t n f hn
  have hneg : (-t).apply ((decreaseExponent n f (min e f)).1 : ℤ) =
      -t.apply ((decreaseExponent n f (min e f)).1 : ℤ) := by
    cases t with
    | negative => exact (neg_neg _).symm
    | positive => rfl
  rw [UnpackedFloat.sub, UnpackedFloat.neg, UnpackedFloat.add]
  dsimp only
  rw [hneg, Int.sub_eq_add_neg]

theorem Spells.neg (hv : Spells v sign m k) : Spells v.neg (-sign) m k := by
  refine ⟨hv.canonical, ?_⟩
  rcases hv.shape with ⟨rfl, rfl⟩ | ⟨hm, rfl⟩
  · exact Or.inl ⟨rfl, rfl⟩
  · exact Or.inr ⟨hm, rfl⟩

theorem approximates_sub (hx : x.isFinite = true) (hy : y.isFinite = true) :
    Approximates (x - y) (value x - value y) := by
  obtain ⟨sign, m, k, -, hu⟩ := exists_spells hx
  obtain ⟨other, n, j, -, hv⟩ := exists_spells hy
  have hsum := hu.approximates_add hv.neg
  rw [← sub_eq_add, hv.neg.value_eq, factor_neg, neg_mul, ← hv.value_eq, ← sub_eq_add_neg] at hsum
  exact hsum

/-- The product of two significands never has fewer digits than single
precision keeps at its exponent. -/
theorem product_exponent_le (hm : Canonical m k) (hn : Canonical n j) (hpos : 0 < m)
    (hpos' : 0 < n) :
    ((k : ℤ) - 149 + (j - 149)) ≤
      Format.binary32.targetExponent (totalExponent (m * n) ((k : ℤ) - 149 + (j - 149))) := by
  change _ ≤ max (totalExponent (m * n) ((k : ℤ) - 149 + (j - 149)) - 24) (-149)
  rw [totalExponent]
  obtain ⟨-, hleast⟩ := hm
  obtain ⟨-, hleast'⟩ := hn
  have hproduct : 0 < m * n := Nat.mul_pos hpos hpos'
  by_cases hdigits : 2 ^ 23 ≤ m * n
  · have := (Nat.le_log2 hproduct.ne').mpr hdigits
    omega
  · have hfew : ¬2 ^ 23 ≤ m := fun h => hdigits (h.trans (Nat.le_mul_of_pos_right m hpos'))
    have hfew' : ¬2 ^ 23 ≤ n := fun h => hdigits (h.trans (Nat.le_mul_of_pos_left n hpos))
    omega

theorem approximates_mul (hx : x.isFinite = true) (hy : y.isFinite = true) :
    Approximates (x * y) (value x * value y) := by
  obtain ⟨sign, m, k, -, hu⟩ := exists_spells hx
  obtain ⟨other, n, j, -, hv⟩ := exists_spells hy
  have hproduct : x * y = .ofModel
      (.pack (mul Format.binary32 x.toModel.unpack y.toModel.unpack)) := rfl
  rw [hproduct, value, value]
  generalize x.toModel.unpack = u at hu
  generalize y.toModel.unpack = v at hv
  clear hproduct
  rcases hu.shape with ⟨-, rfl⟩ | ⟨hm, rfl⟩
  · rcases hv.shape with ⟨-, rfl⟩ | ⟨hn, rfl⟩ <;> rw [unpackedValue_zero, zero_mul] <;>
      exact (spells_zero _).approximates_self
  · rcases hv.shape with ⟨-, rfl⟩ | ⟨hn, rfl⟩
    · rw [unpackedValue_zero, mul_zero]
      exact (spells_zero _).approximates_self
    · obtain ⟨q, i, hspells, hnearest⟩ := roundWithAccuracy_spells (stands_exact (m * n))
        (product_exponent_le hu.canonical hv.canonical hm hn) (sign * other)
      have happrox := hspells.approximates (by positivity) hnearest
      rw [factor_mul, zpow_add₀ two_ne_zero, Nat.cast_mul] at happrox
      rw [hu.value_eq, hv.value_eq, mul_mul_mul_comm, mul_mul_mul_comm (m : ℝ)]
      exact happrox

theorem stands_quotient (m : Nat) {d : Nat} (hd : 0 < d) :
    Stands (.ofMantissaAndAccuracy (m / d) (accuracyOfFraction (m % d) d)) (m / d : ℝ) := by
  have hd' : (0 : ℝ) < d := by exact_mod_cast hd
  have hlt : ((m % d : ℕ) : ℝ) < d := by exact_mod_cast Nat.mod_lt m hd
  have hsplit : (m : ℝ) / d = (m / d : ℕ) + (m % d : ℕ) / d := by
    have : (m : ℝ) = d * (m / d : ℕ) + (m % d : ℕ) := by exact_mod_cast (Nat.div_add_mod m d).symm
    rw [this]
    field_simp
  rw [hsplit, accuracyOfFraction]
  have hbelow : ((m % d : ℕ) : ℝ) / d < 1 := (div_lt_one hd').mpr hlt
  by_cases hnone : m % d = 0
  · rw [if_pos hnone, hnone, Nat.cast_zero, zero_div, add_zero]
    exact stands_exact _
  · rw [if_neg hnone]
    have hsome : (0 : ℝ) < (m % d : ℕ) / d := by
      have : (0 : ℝ) < (m % d : ℕ) := by exact_mod_cast Nat.pos_of_ne_zero hnone
      positivity
    rcases Nat.lt_trichotomy (2 * (m % d)) d with hlow | hhalf | hhigh
    · rw [compare_lt_iff_lt.mpr hlow]
      have : ((m % d : ℕ) : ℝ) / d < 1 / 2 := by
        rw [div_lt_div_iff₀ hd' two_pos]
        have : ((2 * (m % d) : ℕ) : ℝ) < d := by exact_mod_cast hlow
        push_cast at this
        linarith
      refine ⟨lt_add_of_pos_right _ hsome, ?_⟩
      change ((m / d : ℕ) + (m % d : ℕ) / d : ℝ) + ((m / d : ℕ) + (m % d : ℕ) / d) <
        (m / d : ℕ) + (m / d : ℕ) + 1
      linarith
    · rw [compare_eq_iff_eq.mpr hhalf]
      have : ((m % d : ℕ) : ℝ) / d = 1 / 2 := by
        rw [div_eq_div_iff hd'.ne' two_ne_zero]
        have : ((2 * (m % d) : ℕ) : ℝ) = d := by exact_mod_cast hhalf
        push_cast at this
        linarith
      change ((m / d : ℕ) + (m % d : ℕ) / d : ℝ) + ((m / d : ℕ) + (m % d : ℕ) / d) =
        (m / d : ℕ) + (m / d : ℕ) + 1
      linarith
    · rw [compare_gt_iff_gt.mpr hhigh]
      have : 1 / 2 < ((m % d : ℕ) : ℝ) / d := by
        rw [div_lt_div_iff₀ two_pos hd']
        have : (d : ℝ) < (2 * (m % d) : ℕ) := by exact_mod_cast hhigh
        push_cast at this
        linarith
      refine ⟨?_, add_lt_add_right hbelow _⟩
      change ((m / d : ℕ) + (m / d : ℕ) + 1 : ℝ) < ((m / d : ℕ) + (m % d : ℕ) / d) +
        ((m / d : ℕ) + (m % d : ℕ) / d)
      linarith

/-- A quotient is computed to as many digits as single precision keeps. -/
theorem divCore_spec (hm : 0 < m) (hn : 0 < n) (e f : ℤ) :
    ∃ (q : ℕ) (t : ℤ) (acc : Accuracy) (r : ℝ), divCore Format.binary32 m e n f = (q, t, acc) ∧
      Stands (.ofMantissaAndAccuracy q acc) r ∧ r * 2 ^ t = m * 2 ^ e / (n * 2 ^ f) ∧ 0 ≤ r ∧
      t ≤ Format.binary32.targetExponent (totalExponent q t) := by
  rw [divCore]
  generalize ht : min (e - f)
    (Format.binary32.targetExponent (totalExponent m e - totalExponent n f)) = t
  change min (e - f) (max (totalExponent m e - totalExponent n f - 24) (-149)) = t at ht
  obtain ⟨gap, hgap⟩ := Int.eq_ofNat_of_zero_le (show 0 ≤ e - f - t by omega)
  rw [hgap, Int.toNat_natCast]
  refine ⟨_, _, _, _, rfl, stands_quotient (m <<< gap) hn, ?_, by positivity, ?_⟩
  · obtain rfl : e = gap + t + f := by omega
    have hpower : (0 : ℝ) < 2 ^ f := by positivity
    have hn' : (0 : ℝ) < n := by exact_mod_cast hn
    rw [Nat.shiftLeft_eq, zpow_add₀ two_ne_zero, zpow_add₀ two_ne_zero, zpow_natCast]
    push_cast
    field_simp
  · change t ≤ max (totalExponent (m <<< gap / n) t - 24) (-149)
    rw [totalExponent, totalExponent] at ht
    rw [totalExponent]
    by_cases hleast : t ≤ -149
    · omega
    · have hdigits : 2 ^ 23 ≤ m <<< gap / n := by
        rw [Nat.le_div_iff_mul_le hn, Nat.shiftLeft_eq]
        calc 2 ^ 23 * n ≤ 2 ^ 23 * 2 ^ (n.log2 + 1) := Nat.mul_le_mul_left _ Nat.lt_log2_self.le
          _ ≤ 2 ^ m.log2 * 2 ^ gap := by
              rw [← Nat.pow_add, ← Nat.pow_add]
              exact Nat.pow_le_pow_right two_pos (by omega)
          _ ≤ m * 2 ^ gap := Nat.mul_le_mul_right _ (Nat.log2_self_le hm.ne')
      have := (Nat.le_log2 (by omega)).mpr hdigits
      omega

theorem approximates_div (hx : x.isFinite = true) (hy : y.isFinite = true) (hne : value y ≠ 0) :
    Approximates (x / y) (value x / value y) := by
  obtain ⟨sign, m, k, -, hu⟩ := exists_spells hx
  obtain ⟨other, n, j, -, hv⟩ := exists_spells hy
  have hquotient : x / y = .ofModel
      (.pack (UnpackedFloat.div Format.binary32 x.toModel.unpack y.toModel.unpack)) := rfl
  rw [value] at hne
  rw [hquotient, value, value]
  generalize x.toModel.unpack = u at hu
  generalize y.toModel.unpack = v at hv hne
  clear hquotient
  rcases hv.shape with ⟨-, rfl⟩ | ⟨hn, rfl⟩
  · exact absurd rfl hne
  · rcases hu.shape with ⟨-, rfl⟩ | ⟨hm, rfl⟩
    · rw [unpackedValue_zero, zero_div]
      exact (spells_zero _).approximates_self
    · obtain ⟨q, t, acc, r, hcore, hstands, hvalue, hnonneg, ht⟩ :=
        divCore_spec hm hn (k - 149) (j - 149)
      rw [UnpackedFloat.div, hcore]
      dsimp only
      obtain ⟨w, i, hspells, hnearest⟩ := roundWithAccuracy_spells hstands ht (sign / other)
      have happrox := hspells.approximates (by positivity) hnearest
      rw [factor_div, hvalue, div_mul_div_comm] at happrox
      rw [hu.value_eq, hv.value_eq]
      exact happrox

theorem stands_root (m : Nat) :
    Stands (.ofMantissaAndAccuracy (Nat.sqrt m)
      (if m - Nat.sqrt m * Nat.sqrt m = 0 then .exact
        else .inexact (if m - Nat.sqrt m * Nat.sqrt m ≤ Nat.sqrt m then .lt else .gt)))
          (Real.sqrt m) := by
  have hlow : Nat.sqrt m * Nat.sqrt m ≤ m := Nat.sqrt_le m
  have hhigh : m < (Nat.sqrt m + 1) * (Nat.sqrt m + 1) := Nat.lt_succ_sqrt m
  generalize Nat.sqrt m = q at hlow hhigh
  have hq : (0 : ℝ) ≤ q := Nat.cast_nonneg q
  by_cases hexact : m - q * q = 0
  · rw [if_pos hexact]
    obtain rfl : m = q * q := by omega
    rw [Nat.cast_mul, Real.sqrt_mul_self hq]
    exact stands_exact q
  · rw [if_neg hexact]
    by_cases hbelow : m - q * q ≤ q
    · rw [if_pos hbelow]
      have hupper : (m : ℝ) ≤ q * q + q := by exact_mod_cast (show m ≤ q * q + q by omega)
      have hlower : (q * q : ℝ) < m := by exact_mod_cast (show q * q < m by omega)
      have hbelow' : √(m : ℝ) < q + 1 / 2 := by
        rw [Real.sqrt_lt' (by positivity)]
        linarith
      refine ⟨Real.lt_sqrt_of_sq_lt (by rw [sq]; exact hlower), ?_⟩
      change √(m : ℝ) + √(m : ℝ) < q + q + 1
      linarith
    · rw [if_neg hbelow]
      have hlower : (q * q + q + 1 : ℝ) ≤ m := by exact_mod_cast (show q * q + q + 1 ≤ m by omega)
      have hupper : (m : ℝ) < (q + 1) * (q + 1) := by exact_mod_cast hhigh
      have habove' : q + 1 / 2 < √(m : ℝ) := by
        refine Real.lt_sqrt_of_sq_lt ?_
        linarith
      refine ⟨?_, ?_⟩
      · change (q + q + 1 : ℝ) < √(m : ℝ) + √(m : ℝ)
        linarith
      · rw [Real.sqrt_lt' (by positivity), sq]
        exact hupper

/-- A square root is computed to as many digits as single precision keeps. -/
theorem sqrtCore_spec (hm : 0 < m) (e : ℤ) :
    ∃ (q : ℕ) (t : ℤ) (acc : Accuracy) (r : ℝ), sqrtCore Format.binary32 m e = (q, t, acc) ∧
      Stands (.ofMantissaAndAccuracy q acc) r ∧ r * 2 ^ t = Real.sqrt (m * 2 ^ e) ∧ 0 ≤ r ∧
      t ≤ Format.binary32.targetExponent (totalExponent q t) := by
  rw [sqrtCore]
  generalize ht : min (e.ediv 2)
    (Format.binary32.targetExponent ((totalExponent m e + 1).ediv 2)) = t
  change min (e / 2) (max ((totalExponent m e + 1) / 2 - 24) (-149)) = t at ht
  obtain ⟨gap, hgap⟩ := Int.eq_ofNat_of_zero_le (show 0 ≤ e - 2 * t by omega)
  rw [hgap, Int.toNat_natCast]
  refine ⟨_, _, _, _, rfl, stands_root (m <<< gap), ?_, Real.sqrt_nonneg _, ?_⟩
  · obtain rfl : e = gap + 2 * t := by omega
    have hpower : (0 : ℝ) ≤ 2 ^ t := by positivity
    rw [Nat.shiftLeft_eq, zpow_add₀ two_ne_zero, zpow_natCast, mul_comm 2 t, zpow_mul, ← mul_assoc]
    push_cast
    rw [zpow_ofNat, Real.sqrt_mul' _ (sq_nonneg _), Real.sqrt_sq hpower]
  · change t ≤ max (totalExponent (Nat.sqrt (m <<< gap)) t - 24) (-149)
    rw [totalExponent] at ht
    rw [totalExponent]
    by_cases hleast : t ≤ -149
    · omega
    · have hdigits : 2 ^ 23 ≤ Nat.sqrt (m <<< gap) := by
        rw [Nat.le_sqrt, Nat.shiftLeft_eq, ← Nat.pow_add]
        calc 2 ^ (23 + 23) ≤ 2 ^ (m.log2 + gap) := Nat.pow_le_pow_right two_pos (by omega)
          _ = 2 ^ m.log2 * 2 ^ gap := Nat.pow_add _ _ _
          _ ≤ m * 2 ^ gap := Nat.mul_le_mul_right _ (Nat.log2_self_le hm.ne')
      have := (Nat.le_log2 (by omega)).mpr hdigits
      omega

theorem approximates_sqrt (hx : x.isFinite = true) (hnonneg : 0 ≤ value x) :
    Approximates x.sqrt (Real.sqrt (value x)) := by
  obtain ⟨sign, m, k, -, hu⟩ := exists_spells hx
  have hroot : x.sqrt = .ofModel (.pack (UnpackedFloat.sqrt Format.binary32 x.toModel.unpack)) :=
    rfl
  rw [value] at hnonneg
  rw [hroot, value]
  generalize x.toModel.unpack = u at hu hnonneg
  clear hroot
  rcases hu.shape with ⟨-, rfl⟩ | ⟨hm, rfl⟩
  · rw [unpackedValue_zero, Real.sqrt_zero]
    exact (spells_zero _).approximates_self
  · have hpos : (0 : ℝ) < m * 2 ^ ((k : ℤ) - 149) := by
      have := power_pos k
      positivity
    rw [hu.value_eq] at hnonneg ⊢
    cases sign with
    | negative =>
        rw [factor] at hnonneg
        linarith
    | positive =>
        obtain ⟨q, t, acc, r, hcore, hstands, hvalue, hroot, ht⟩ := sqrtCore_spec hm (k - 149)
        rw [UnpackedFloat.sqrt, hcore]
        dsimp only
        obtain ⟨w, i, hspells, hnearest⟩ := roundWithAccuracy_spells hstands ht .positive
        have happrox := hspells.approximates (by positivity) hnearest
        rw [hvalue] at happrox
        rw [factor, one_mul] at happrox ⊢
        exact happrox

end Volley.Single
