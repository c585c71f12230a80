import Mathlib
import Volley.Json.Tree
import Volley.Proofs.Number.Fractions
import Volley.Proofs.Number.Halfway

/-!
# Powers of ten

The powers of ten up to the fifty-third and their reciprocals, and what double precision holds of
them: a number of few decimal digits is not so near to a number of few binary digits that a
rounding would take it to the other side.
-/

namespace Volley

open Float.Model
open Volley.Nearest (roundedQuotient)

/-- A power of ten, rounded to fifty-three binary digits. -/
def heldPower (n : Nat) : Nat :=
  let excess := (10 ^ n).log2 - 52
  roundedQuotient (10 ^ n / 2 ^ excess) (10 ^ n % 2 ^ excess) (2 ^ excess) * 2 ^ excess

/-- The number is the held power of ten, with all its digits. -/
def holdsPower (n : Nat) : UnpackedFloat → Bool
  | .finite .positive m e _ => decide (2 ^ 52 ≤ m ∧ m < 2 ^ 53 ∧ -52 ≤ e ∧ e ≤ 124 ∧
      m * 2 ^ (e + 52).toNat = heldPower n * 2 ^ 52)
  | _ => false

theorem heldPower_spec :
    ∀ n < 54, (2 ^ (10 ^ n).log2 ≤ heldPower n ∧ heldPower n ≤ 2 ^ ((10 ^ n).log2 + 1) ∧
    2 ^ 53 * heldPower n ≤ (2 ^ 53 + 1) * 10 ^ n ∧ (2 ^ 53 - 1) * 10 ^ n ≤ 2 ^ 53 * heldPower n) ∧
      holdsPower n (Json.Number.tenPower n).toModel.unpack = true := by
  decide +kernel

theorem certified_powers : ∀ n < 54, ∀ i < 3,
    Certified (10 ^ n * 2 ^ i) (2 ^ ((10 ^ n).log2 + 1)) (heldPower n * 2 ^ i)
      (2 ^ ((10 ^ n).log2 + 1)) ∧
      Certified (2 ^ ((10 ^ n).log2 + 1 + i)) (2 * 10 ^ n) (2 ^ ((10 ^ n).log2 + 1 + i))
        (2 * heldPower n) := by
  decide +kernel

variable {n : Nat}

theorem exists_holds_tenPower (hn : n < 54) :
    ∃ m e, Double.Holds (Json.Number.tenPower n) .positive m e ∧ (m * 2 ^ e : ℝ) = heldPower n ∧
      -52 ≤ e ∧ e ≤ 124 := by
  have hheld := (heldPower_spec n hn).2
  cases hunpack : (Json.Number.tenPower n).toModel.unpack with
  | finite sign m e hm =>
      rw [hunpack] at hheld
      cases sign with
      | negative => cases hheld
      | positive =>
          obtain ⟨hleast, hdigits, hlow, hhigh, hvalue⟩ := of_decide_eq_true hheld
          refine ⟨m, e, ⟨⟨hleast, hdigits, by omega, by omega⟩, hm, hunpack⟩, ?_, hlow, hhigh⟩
          have hvalue' : (m * 2 ^ (e + 52).toNat : ℝ) = heldPower n * 2 ^ 52 := by
            exact_mod_cast hvalue
          rw [← zpow_natCast, Int.toNat_of_nonneg (by omega), zpow_add₀ two_ne_zero,
            ← mul_assoc] at hvalue'
          exact mul_right_cancel₀ (by norm_num) hvalue'
  | _ =>
      rw [hunpack] at hheld
      cases hheld

/-- A power of ten below the fifty-third power of two is held as it is. -/
theorem heldPower_eq (hn : 10 ^ n < 2 ^ 53) : heldPower n = 10 ^ n := by
  have hfew : n < 16 := (Nat.pow_lt_pow_iff_right (by decide)).mp
    (hn.trans (by decide : 2 ^ 53 < 10 ^ 16))
  obtain ⟨-, -, hclose, hclose'⟩ := (heldPower_spec n (by omega)).1
  generalize 10 ^ n = power at hn hclose hclose'
  omega

/-! ## Numbers of few decimal digits -/

/-- Two numbers next to each other that stay apart from the fractions of few digits when
their powers of two change a little. -/
structure Guarded (x y : ℝ) : Prop where
  close : |y - x| ≤ x / 2 ^ 52
  scale : ∃ s : ℤ, (2 ^ s ≤ x ∧ x ≤ 2 ^ (s + 1)) ∧ (2 ^ s ≤ y ∧ y ≤ 2 ^ (s + 1)) ∧
    ∀ i : ℤ, -1 ≤ i → i ≤ 1 → Apart (x * 2 ^ (i - s)) (y * 2 ^ (i - s))

theorem heldPower_close (hclose : 2 ^ 53 * heldPower n ≤ (2 ^ 53 + 1) * 10 ^ n)
    (hclose' : (2 ^ 53 - 1) * 10 ^ n ≤ 2 ^ 53 * heldPower n) :
    (1 - 1 / 2 ^ 53) * 10 ^ n ≤ (heldPower n : ℝ) ∧
      (heldPower n : ℝ) ≤ (1 + 1 / 2 ^ 53) * 10 ^ n := by
  have habove : (2 ^ 53 * heldPower n : ℝ) ≤ (2 ^ 53 + 1) * 10 ^ n := by exact_mod_cast hclose
  have hbelow : ((2 ^ 53 - 1) * 10 ^ n : ℝ) ≤ 2 ^ 53 * heldPower n := by
    have hcast : (((2 ^ 53 - 1 : ℕ) * 10 ^ n : ℕ) : ℝ) ≤ (2 ^ 53 * heldPower n : ℕ) := by
      exact_mod_cast hclose'
    rw [Nat.cast_mul, Nat.cast_sub (by decide)] at hcast
    push_cast at hcast
    linarith
  constructor <;> linarith

theorem guarded_power (hn : n < 54) : Guarded (10 ^ n) (heldPower n) := by
  have hne : 10 ^ n ≠ 0 := (Nat.pow_pos (by decide)).ne'
  obtain ⟨hlow, hhigh⟩ := (Nat.log2_eq_iff hne).mp rfl
  obtain ⟨hlow', hhigh', hclose, hclose'⟩ := (heldPower_spec n hn).1
  have hcertified := fun i hi => (certified_powers n hn i hi).1
  generalize (10 ^ n).log2 = s at hlow hhigh hlow' hhigh' hcertified
  refine ⟨?_, s, ?_, ?_, fun i hleast hmost => ?_⟩
  · obtain ⟨hbelow, habove⟩ := heldPower_close hclose hclose'
    rw [abs_le]
    have hpower : (0 : ℝ) < 10 ^ n := by positivity
    constructor <;> linarith
  · rw [← Nat.cast_add_one, zpow_natCast, zpow_natCast]
    exact ⟨by exact_mod_cast hlow, by exact_mod_cast hhigh.le⟩
  · rw [← Nat.cast_add_one, zpow_natCast, zpow_natCast]
    exact ⟨by exact_mod_cast hlow', by exact_mod_cast hhigh'⟩
  · obtain ⟨k, hk⟩ := Int.eq_ofNat_of_zero_le (show 0 ≤ i + 1 by omega)
    have hapart := (hcertified k (by omega)).apart (Nat.two_pow_pos _) (Nat.two_pow_pos _)
    have hshift (z : ℝ) : z * 2 ^ (i - s) = z * 2 ^ k / 2 ^ (s + 1) := by
      rw [show i - s = k - (s + 1 : ℕ) by push_cast; omega, zpow_sub₀ two_ne_zero, zpow_natCast,
        zpow_natCast, mul_div_assoc]
    rw [hshift, hshift]
    push_cast at hapart
    exact hapart

theorem guarded_reciprocal (hn : n < 54) : Guarded (1 / 10 ^ n) (1 / heldPower n) := by
  have hne : 10 ^ n ≠ 0 := (Nat.pow_pos (by decide)).ne'
  obtain ⟨hlow, hhigh⟩ := (Nat.log2_eq_iff hne).mp rfl
  obtain ⟨hlow', hhigh', hclose, hclose'⟩ := (heldPower_spec n hn).1
  have hcertified := fun i hi => (certified_powers n hn i hi).2
  generalize (10 ^ n).log2 = s at hlow hhigh hlow' hhigh' hcertified
  have hheld : 0 < heldPower n := (Nat.two_pow_pos s).trans_le hlow'
  have hbounds {z : Nat} (hz : 0 < z) (hbelow : 2 ^ s ≤ z) (habove : z ≤ 2 ^ (s + 1)) :
      (2 : ℝ) ^ (-(s + 1 : ℤ)) ≤ 1 / z ∧ (1 / z : ℝ) ≤ 2 ^ (-(s + 1 : ℤ) + 1) := by
    have hz' : (0 : ℝ) < z := by exact_mod_cast hz
    rw [show -(s + 1 : ℤ) + 1 = -s by ring, zpow_neg, zpow_neg, ← Nat.cast_add_one, zpow_natCast,
      zpow_natCast, one_div]
    exact ⟨inv_anti₀ hz' (by exact_mod_cast habove),
      inv_anti₀ (by positivity) (by exact_mod_cast hbelow)⟩
  refine ⟨?_, -(s + 1), ?_, hbounds hheld hlow' hhigh', fun i hleast hmost => ?_⟩
  · obtain ⟨hbelow, habove⟩ := heldPower_close hclose hclose'
    have hpower : (0 : ℝ) < 10 ^ n := by positivity
    have hheld' : (0 : ℝ) < heldPower n := by exact_mod_cast hheld
    rw [abs_le, div_div, div_sub_div _ _ hheld'.ne' hpower.ne', ← neg_div,
      div_le_div_iff₀ (by positivity) (by positivity),
      div_le_div_iff₀ (by positivity) (by positivity)]
    constructor <;> nlinarith
  · have hpower := hbounds (Nat.pos_of_ne_zero hne) hlow hhigh.le
    push_cast at hpower
    exact hpower
  · obtain ⟨k, hk⟩ := Int.eq_ofNat_of_zero_le (show 0 ≤ i + 1 by omega)
    have hapart := (hcertified k (by omega)).apart (Nat.mul_pos two_pos (Nat.pos_of_ne_zero hne))
      (Nat.mul_pos two_pos hheld)
    have hshift (z : ℝ) : 1 / z * 2 ^ (i - -(s + 1 : ℤ)) = 2 ^ (s + 1 + k) / (2 * z) := by
      rw [show i - -(s + 1 : ℤ) = (s + 1 + k : ℕ) - 1 by push_cast; omega, zpow_sub₀ two_ne_zero,
        zpow_natCast, zpow_one]
      ring
    rw [hshift, hshift]
    push_cast at hapart
    exact hapart

/-- What is held of a power of ten: a power with a negative exponent is divided by. -/
noncomputable def heldScale (e : ℤ) : ℝ :=
  if 0 ≤ e then heldPower e.toNat else 1 / heldPower (-e).toNat

theorem guarded_scale {e : ℤ} (he : e.natAbs < 54) : Guarded (10 ^ e) (heldScale e) := by
  rw [heldScale]
  split
  · rename_i hwhole
    obtain ⟨n, rfl⟩ := Int.eq_ofNat_of_zero_le hwhole
    rw [Int.toNat_natCast, zpow_natCast]
    exact guarded_power (by omega)
  · obtain ⟨n, hn⟩ := Int.eq_ofNat_of_zero_le (show 0 ≤ -e by omega)
    rw [hn, show e = -n by omega, Int.toNat_natCast, zpow_neg, zpow_natCast, ← one_div]
    exact guarded_reciprocal (by omega)

variable {x y b : ℝ} {c : Nat} {t : ℤ}

/-- The sides of a fraction whose numerator has twenty-five digits, when a power of two
is taken out of the two numbers. -/
theorem Guarded.sides_shifted (h : Guarded x y) (hc : 0 < c) (hfew : c < 17 * 2 ^ 20)
    (hleast : 2 ^ 24 ≤ n) (hmost : n < 2 ^ 25) (t : ℤ) :
    (c * (x * 2 ^ (-t)) = n ∧ c * (y * 2 ^ (-t)) = n) ∨
      (n < c * (x * 2 ^ (-t)) ∧ n + 1 / 2 ^ 29 < c * (y * 2 ^ (-t))) ∨
        (c * (x * 2 ^ (-t)) < n ∧ c * (y * 2 ^ (-t)) + 1 / 2 ^ 29 < n) := by
  obtain ⟨s, ⟨hx, hx'⟩, ⟨hy, hy'⟩, hapart⟩ := h.scale
  have hn : 0 < n := by omega
  have hmost' : (n : ℝ) < 2 ^ 25 := by exact_mod_cast hmost
  have hleast' : (2 : ℝ) ^ 24 ≤ n := by exact_mod_cast hleast
  rcases lt_or_ge t s with hcoarse | hfine
  · obtain ⟨k, hk⟩ := Int.eq_ofNat_of_zero_le (show 0 ≤ s - t - 1 by omega)
    have hshift (z : ℝ) : c * (z * 2 ^ (-t)) = (c * 2 ^ k : ℕ) * (z * 2 ^ (1 - s)) := by
      rw [show -t = k + (1 - s) by omega, zpow_add₀ two_ne_zero, zpow_natCast]
      push_cast
      ring
    rw [hshift, hshift]
    by_cases hstill : c * 2 ^ k < 17 * 2 ^ 20
    · exact (hapart 1 (by decide) le_rfl).sides n _ hn hmost (by positivity) hstill
    · -- The multiple is beyond every fraction of few digits.
      have hcount : (17 * 2 ^ 20 : ℝ) ≤ (c * 2 ^ k : ℕ) := by exact_mod_cast not_lt.mp hstill
      have hfar {z : ℝ} (hz : 2 ^ s ≤ z) : (n : ℝ) + 1 < (c * 2 ^ k : ℕ) * (z * 2 ^ (1 - s)) := by
        have htwo : 2 ≤ z * 2 ^ (1 - s) := by
          refine le_trans (le_of_eq ?_) (mul_le_mul_of_nonneg_right hz (by positivity))
          rw [← zpow_add₀ two_ne_zero, add_sub_cancel, zpow_one]
        have hproduct := mul_le_mul hcount htwo zero_le_two (by positivity)
        linarith
      exact .inr (.inl ⟨by linarith [hfar hx], by linarith [hfar hy]⟩)
  · by_cases hnear : t ≤ s + 1
    · have hshift := (hapart (s - t) (by omega) (by omega)).sides n c hn hmost hc hfew
      rwa [show s - t - s = -t by ring] at hshift
    · -- The multiple does not come up to any numerator.
      have hcount : (c : ℝ) < 17 * 2 ^ 20 := by exact_mod_cast hfew
      have hfar {z : ℝ} (hz : z ≤ 2 ^ (s + 1)) : c * (z * 2 ^ (-t)) + 1 < n := by
        have hhalf : z * 2 ^ (-t) ≤ 1 / 2 := by
          refine (mul_le_mul_of_nonneg_right hz (by positivity)).trans ?_
          rw [← zpow_add₀ two_ne_zero, show (1 / 2 : ℝ) = 2 ^ (-1 : ℤ) by norm_num]
          exact zpow_le_zpow_right₀ one_le_two (by omega)
        have hproduct := mul_le_mul_of_nonneg_left hhalf (Nat.cast_nonneg c)
        linarith
      exact .inr (.inr ⟨by linarith [hfar hx'], by linarith [hfar hy']⟩)

/-- A multiple of the first number lies on the same side of a number of few binary digits as that of
the second one, which is not nearer to it than half of a digit that is held. -/
theorem Guarded.sides (h : Guarded x y) (hc : 0 < c) (hfew : c < 17 * 2 ^ 20)
    (hb : Double.Few b t) :
    (c * x = b ∧ c * y = b) ∨ (b < c * x ∧ b + 2 ^ (t - 29) < c * y) ∨
      (c * x < b ∧ c * y + 2 ^ (t - 29) < b) := by
  obtain ⟨n, rfl⟩ := hb.count
  have hunit : (0 : ℝ) < 2 ^ t := by positivity
  have hleast : (2 ^ 24 : ℝ) ≤ n := le_of_mul_le_mul_right hb.low hunit
  have hmost : (n : ℝ) < 2 ^ 25 := lt_of_mul_lt_mul_right hb.high hunit.le
  have hscale (z : ℝ) : c * z = c * (z * 2 ^ (-t)) * 2 ^ t := by
    rw [mul_assoc, mul_assoc, ← zpow_add₀ two_ne_zero, neg_add_cancel, zpow_zero, mul_one]
  have hhalf : (2 : ℝ) ^ (t - 29) = 1 / 2 ^ 29 * 2 ^ t := by
    rw [zpow_sub₀ two_ne_zero]
    norm_num
    ring
  rw [hscale x, hscale y, hhalf, ← add_mul, ← add_mul]
  simp only [mul_lt_mul_iff_left₀ hunit, mul_left_inj' hunit.ne']
  exact h.sides_shifted hc hfew (by exact_mod_cast hleast) (by exact_mod_cast hmost) t

/-! ## Sides after a rounding -/

variable {v : ℝ}

theorem Guarded.sides_near (h : Guarded x y) (hc : 0 < c) (hfew : c < 17 * 2 ^ 20)
    (hv : Double.Near v (c * y)) (hb : Double.Few b t) :
    (c * x = b ∧ v = b) ∨ (b < c * x ∧ b < v) ∨ (c * x < b ∧ v < b) := by
  rcases h.sides hc hfew hb with ⟨hsame, hsame'⟩ | ⟨hgt, hgt'⟩ | ⟨hlt, hlt'⟩
  · exact .inl ⟨hsame, hv.eq_of_eq hb hsame'⟩
  · exact .inr (.inl ⟨hgt, hv.lt_of_gt hb hgt'⟩)
  · exact .inr (.inr ⟨hlt, hv.lt_of_lt hb hlt'⟩)

/-- A double that is a decimal of any number of digits, rounded twice, is still next to it. -/
theorem Guarded.abs_near_sub_le (h : Guarded x y)
    (hv : Double.Near v (c * y)) : |v - c * x| ≤ c * x / 2 ^ 50 := by
  have hclose := mul_le_mul_of_nonneg_left h.close (Nat.cast_nonneg (α := ℝ) c)
  rw [← abs_of_nonneg (Nat.cast_nonneg (α := ℝ) c), ← abs_mul,
    abs_of_nonneg (Nat.cast_nonneg (α := ℝ) c), mul_sub] at hclose
  have hnear := hv.abs_sub_le
  obtain ⟨hlow, hhigh⟩ := abs_le.mp hclose
  obtain ⟨hlow', hhigh'⟩ := abs_le.mp hnear
  rw [mul_div_assoc'] at hlow hhigh
  rw [abs_le]
  constructor <;> linarith

/-! ## Decimals that round to a number -/

section Hits

open Volley.Single (Hits lower upper reach)
open Volley.Nearest (Canonical)

variable {m k : Nat}

theorem exists_few_upper (hcanonical : Canonical m k) :
    ∃ t, Double.Few (upper m * 2 ^ ((k : ℤ) - 151)) t := by
  have hdigits := hcanonical.1
  have hcount : (upper m * 2 ^ ((k : ℤ) - 151) : ℝ) = (2 * m + 1 : ℕ) * 2 ^ ((k : ℤ) - 150) := by
    rw [upper, show (k : ℤ) - 150 = 1 + (k - 151) by ring, zpow_add₀ two_ne_zero]
    push_cast
    ring
  rw [hcount]
  exact Double.exists_few (by omega) (by omega) _

theorem exists_few_lower (hm : 0 < m) (hcanonical : Canonical m k) :
    ∃ t, Double.Few (lower m k * 2 ^ ((k : ℤ) - 151)) t := by
  have hdigits := hcanonical.1
  by_cases hleast : m = 2 ^ 23 ∧ 0 < k
  · rw [lower, reach, if_pos hleast]
    exact Double.exists_few (by omega) (by omega) _
  · have hcount : (lower m k * 2 ^ ((k : ℤ) - 151) : ℝ) =
        (2 * m - 1 : ℕ) * 2 ^ ((k : ℤ) - 150) := by
      rw [lower, reach, if_neg hleast, show (k : ℤ) - 150 = 1 + (k - 151) by ring,
        zpow_add₀ two_ne_zero,
        show 4 * m - 2 = (2 * m - 1) * 2 by omega]
      push_cast
      ring
    rw [hcount]
    exact Double.exists_few (by omega) (by omega) _

/-- A decimal of few digits that rounds to a number still does after its two
roundings to a double. -/
theorem Guarded.hits_near (h : Guarded x y) (hc : 0 < c) (hfew : c < 17 * 2 ^ 20)
    (hv : Double.Near v (c * y)) (hm : 0 < m) (hcanonical : Canonical m k)
    (hhits : Hits m k (c * x)) : Hits m k v := by
  obtain ⟨t, hlower⟩ := exists_few_lower hm hcanonical
  obtain ⟨t', hupper⟩ := exists_few_upper hcanonical
  have hbelow := h.sides_near hc hfew hv hlower
  have habove := h.sides_near hc hfew hv hupper
  refine ⟨?_, ?_, fun hodd => ⟨?_, ?_⟩⟩
  · rcases hbelow with ⟨-, heq⟩ | ⟨-, hgt⟩ | ⟨hlt, -⟩
    · exact heq.ge
    · exact hgt.le
    · exact absurd hhits.low (not_le.mpr hlt)
  · rcases habove with ⟨-, heq⟩ | ⟨hgt, -⟩ | ⟨-, hlt⟩
    · exact heq.le
    · exact absurd hhits.high (not_le.mpr hgt)
    · exact hlt.le
  · have hstrict := (hhits.odd hodd).1
    rcases hbelow with ⟨heq, -⟩ | ⟨-, hgt⟩ | ⟨hlt, -⟩
    · exact absurd heq hstrict.ne'
    · exact hgt
    · exact absurd hlt hstrict.not_gt
  · have hstrict := (hhits.odd hodd).2
    rcases habove with ⟨heq, -⟩ | ⟨hgt, -⟩ | ⟨-, hlt⟩
    · exact absurd heq hstrict.ne
    · exact absurd hgt hstrict.not_gt
    · exact hlt

end Hits

end Volley
