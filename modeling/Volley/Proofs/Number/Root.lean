import Mathlib
import Volley.Proofs.Number.Error

/-!
# The reciprocal of a root

The mean of one and a number is above the root of the number, and its mirror image at one is below
the reciprocal of the root. Next to one they lie on the numbers themselves or halfway between two
neighbors, so neither rounding passes them.
-/

namespace Volley.Single

variable {x y : Float32} {r s p q : ℝ}

/-- What lies below the middle of two neighbors is not rounded to the greater one. -/
theorem Rounds.le_of_lt_middle (h : Rounds x r) (hp : Representable p)
    (hgap : p < value x → q ≤ value x) (hr : r < (p + q) / 2) : value x ≤ p := by
  by_contra hgt
  have hfar := hgap (not_le.mp hgt)
  have hnearest := h.nearest p hp
  rw [abs_of_pos (by linarith)] at hnearest
  rcases abs_cases (p - r) with ⟨hsize, -⟩ | ⟨hsize, -⟩ <;> linarith

theorem Rounds.ge_of_middle_lt (h : Rounds x r) (hq : Representable q)
    (hgap : value x < q → value x ≤ p) (hr : (p + q) / 2 < r) : q ≤ value x := by
  by_contra hlt
  have hfar := hgap (not_le.mp hlt)
  have hnearest := h.nearest q hq
  rw [abs_of_neg (by linarith)] at hnearest
  rcases abs_cases (q - r) with ⟨hsize, -⟩ | ⟨hsize, -⟩ <;> linarith

theorem sqrt_le_mean (hs : 0 ≤ s) : √s ≤ (1 + s) / 2 := by
  nlinarith [sq_nonneg (√s - 1), Real.sq_sqrt hs]

theorem sqrt_lt_mean (hs : 0 ≤ s) (hne : s ≠ 1) : √s < (1 + s) / 2 := by
  have hroot : √s - 1 ≠ 0 := sub_ne_zero.mpr fun hone => hne (Real.sqrt_eq_one.mp hone)
  nlinarith [sq_pos_of_ne_zero hroot, Real.sq_sqrt hs]

/-- The mean of two multiples is one itself or the middle of two neighbors. -/
theorem Rounds.le_mean {k : ℕ} {m n : ℤ} (h : Rounds y √s)
    (hone : (1 : ℝ) = m * 2 ^ ((k : ℤ) - 149)) (hs : s = n * 2 ^ ((k : ℤ) - 149)) (hm : 2 ^ 23 ≤ m)
    (hm' : m ≤ 2 ^ 24) (hn : 2 ^ 23 ≤ n) (hn' : n ≤ 2 ^ 24) :
    value y ≤ (1 + s) / 2 := by
  have hpower := power_pos k
  have hnonneg : 0 ≤ s := by
    rw [hs]
    exact mul_nonneg (by exact_mod_cast (by positivity : (0 : ℤ) ≤ 2 ^ 23).trans hn) hpower.le
  have hmean : (1 + s) / 2 = (m + n : ℤ) * 2 ^ ((k : ℤ) - 149) / 2 := by
    rw [hs, show (1 : ℝ) + n * 2 ^ ((k : ℤ) - 149) = m * 2 ^ ((k : ℤ) - 149) +
      n * 2 ^ ((k : ℤ) - 149) by rw [← hone]]
    push_cast
    ring
  obtain ⟨c, hc | hc⟩ := Int.even_or_odd' (m + n)
  · refine h.le_of_le ⟨c, k, by rw [abs_of_nonneg] <;> omega, ?_⟩ (sqrt_le_mean hnonneg)
    rw [hmean, hc]
    push_cast
    ring
  · have hne : s ≠ 1 := by
      rintro rfl
      have hsame : (m : ℝ) = n := mul_right_cancel₀ hpower.ne' (hone.symm.trans hs)
      have : m = n := by exact_mod_cast hsame
      omega
    have hbelow : value y ≤ c * 2 ^ ((k : ℤ) - 149) := by
      refine h.le_of_lt_middle (q := (c + 1) * 2 ^ ((k : ℤ) - 149)) ⟨c,
        k, by rw [abs_of_nonneg] <;> omega, rfl⟩
        (fun habove => ?_) ((sqrt_lt_mean hnonneg hne).trans_eq ?_)
      · have hc' : (2 ^ 23 : ℝ) ≤ c := by exact_mod_cast (by omega : (2 ^ 23 : ℤ) ≤ c)
        obtain ⟨j, hj⟩ := exists_multiple_of_ge (x := y) k (by
          refine le_trans ?_ habove.le
          rw [show (k : ℤ) - 126 = 23 + (k - 149) by ring, zpow_add₀ two_ne_zero]
          exact mul_le_mul_of_nonneg_right (le_of_eq_of_le (by norm_num) hc') hpower.le)
        rw [hj] at habove ⊢
        have hnext : c < j := by exact_mod_cast lt_of_mul_lt_mul_right habove hpower.le
        have hnext' : (c : ℝ) + 1 ≤ j := by exact_mod_cast hnext
        exact mul_le_mul_of_nonneg_right hnext' hpower.le
      · rw [hmean, hc]
        push_cast
        ring
    refine hbelow.trans ?_
    rw [hmean, hc]
    push_cast
    linarith

theorem value_sqrt_le_mean (hx : x.isFinite = true) (hlow : 1 / 2 ≤ value x)
    (hhigh : value x ≤ 3 / 2) :
    value x.sqrt ≤ (1 + value x) / 2 := by
  have hnonneg : 0 ≤ value x := by linarith
  have hrounds := (approximates_sqrt hx hnonneg).rounds_of_lt (by
    rw [abs_of_nonneg (Real.sqrt_nonneg _)]
    refine (sqrt_le_mean hnonneg).trans_lt ?_
    norm_num
    linarith)
  rcases le_or_gt (value x) 1 with hone | hone
  · obtain ⟨n, hn⟩ := exists_multiple_of_ge (x := x) 125 (by norm_num; exact hlow)
    have hn' := hn
    norm_num at hn'
    have hbelow : (2 ^ 23 : ℝ) ≤ n := by linarith
    have habove : (n : ℝ) ≤ 2 ^ 24 := by linarith
    exact hrounds.le_mean (k := 125) (m := 2 ^ 24) (by norm_num) hn (by norm_num) le_rfl
      (by exact_mod_cast hbelow) (by exact_mod_cast habove)
  · obtain ⟨n, hn⟩ := exists_multiple_of_ge (x := x) 126 (by norm_num; exact hone.le)
    have hn' := hn
    norm_num at hn'
    have hbelow : (2 ^ 23 : ℝ) ≤ n := by linarith
    have habove : (n : ℝ) ≤ 2 ^ 24 := by linarith
    exact hrounds.le_mean (k := 126) (m := 2 ^ 23) (by norm_num) hn le_rfl (by norm_num)
      (by exact_mod_cast hbelow) (by exact_mod_cast habove)

/-- Above one, what lies beyond the middle of two neighbors is rounded to the
greater one at least. -/
theorem Rounds.succ_le_of_middle_lt {c : ℤ} (h : Rounds y r) (hlow : 2 ^ 23 ≤ c)
    (hhigh : c < 2 ^ 24) (hr : (2 * c + 1) / 2 ^ 24 < r) : (c + 1) / 2 ^ 23 ≤ value y := by
  have hnext := h.ge_of_middle_lt (p := c * 2 ^ ((126 : ℕ) - 149 : ℤ))
    (q := (c + 1) * 2 ^ ((126 : ℕ) - 149 : ℤ))
    ⟨c + 1, 126, by rw [abs_of_nonneg] <;> omega, by push_cast; rfl⟩
      (fun hlt => ?_) (lt_of_eq_of_lt ?_ hr)
  · refine le_of_eq_of_le ?_ hnext
    norm_num
    ring
  · rcases le_or_gt 1 (value y) with hlarge | hsmall
    · obtain ⟨j, hj⟩ := exists_multiple_of_ge (x := y) 126 (by norm_num; exact hlarge)
      rw [hj] at hlt ⊢
      have hprevious : j < c + 1 := by exact_mod_cast lt_of_mul_lt_mul_right hlt (power_pos 126).le
      have hprevious' : (j : ℝ) ≤ c := by exact_mod_cast Int.lt_add_one_iff.mp hprevious
      exact mul_le_mul_of_nonneg_right hprevious' (power_pos 126).le
    · have hone : (2 ^ 23 : ℝ) ≤ c := by exact_mod_cast hlow
      refine hsmall.le.trans ?_
      norm_num
      linarith
  · norm_num
    ring

/-- The mirror image of a number next to one is no greater than its
reciprocal, not even once that is rounded. -/
theorem mirror_le_reciprocal (hx : x.isFinite = true) (hlow : 1 / 2 ≤ value x)
    (hhigh : value x ≤ 3 / 2) :
    2 - value x ≤ value (1 / x) := by
  have hpos : 0 < value x := by linarith
  have happrox := approximates_div (x := 1) rfl hx hpos.ne'
  rw [value_one] at happrox
  have hrounds := happrox.rounds_of_lt (by
    rw [abs_of_pos (by positivity), div_lt_iff₀ hpos]
    norm_num
    linarith)
  have hmirror : 2 - value x ≤ 1 / value x := by
    rw [le_div_iff₀ hpos]
    nlinarith [sq_nonneg (value x - 1)]
  rcases le_or_gt 1 (value x) with hone | hone
  · obtain ⟨n, hn⟩ := exists_multiple_of_ge (x := x) 126 (by norm_num; exact hone)
    norm_num at hn
    have hbelow : (2 ^ 23 : ℝ) ≤ n := by linarith
    have habove : (n : ℝ) ≤ 2 ^ 24 := by linarith
    have hbelow' : 2 ^ 23 ≤ n := by exact_mod_cast hbelow
    have habove' : n ≤ 2 ^ 24 := by exact_mod_cast habove
    refine hrounds.ge_of_ge ⟨2 ^ 24 - n, 126, by rw [abs_of_nonneg] <;> omega, ?_⟩ hmirror
    rw [hn]
    push_cast
    norm_num
    ring
  · obtain ⟨n, hn⟩ := exists_multiple_of_ge (x := x) 125 (by norm_num; exact hlow)
    norm_num at hn
    have hbelow : (2 ^ 23 : ℝ) ≤ n := by linarith
    have habove : (n : ℝ) < 2 ^ 24 := by linarith
    have hbelow' : 2 ^ 23 ≤ n := by exact_mod_cast hbelow
    have habove' : n < 2 ^ 24 := by exact_mod_cast habove
    obtain ⟨c, hc | hc⟩ := Int.even_or_odd' (2 ^ 25 - n)
    · have hc' : (2 ^ 25 - n : ℝ) = 2 * c := by exact_mod_cast hc
      refine hrounds.ge_of_ge ⟨c, 126, by rw [abs_of_nonneg] <;> omega, ?_⟩ hmirror
      norm_num
      linarith
    · have hc' : (2 ^ 25 - n : ℝ) = 2 * c + 1 := by exact_mod_cast hc
      have hstrict : 2 - value x < 1 / value x := by
        rw [lt_div_iff₀ hpos]
        nlinarith [sq_pos_of_ne_zero (sub_ne_zero.mpr hone.ne)]
      have hnext := hrounds.succ_le_of_middle_lt (c := c) (by omega) (by omega)
        (lt_of_eq_of_lt (by linarith) hstrict)
      linarith

/-- The reciprocal of a root is not rounded below the tangent that touches it at one. -/
theorem tangent_le_reciprocal_sqrt (hx : x.isFinite = true) (hlow : 1 / 2 ≤ value x)
    (hhigh : value x ≤ 3 / 2) :
    (3 - value x) / 2 ≤ value (1 / x.sqrt) := by
  have hmean := value_sqrt_le_mean hx hlow hhigh
  obtain ⟨hfinite, herror⟩ := abs_sqrt_sub_le hx (by linarith)
  have hroot : 7 / 10 ≤ √(value x) := Real.le_sqrt_of_sq_le (by linarith)
  have hbelow := (abs_le.mp herror).1
  rw [roundoff_eq] at hbelow
  have hmirror := mirror_le_reciprocal hfinite (by linarith) (by linarith)
  linarith

end Volley.Single
