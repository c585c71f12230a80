import Mathlib.Algebra.Order.Ring.Nat
import Mathlib.Tactic.Linarith
import Mathlib.Tactic.Ring

/-!
# Rounding to twenty-four digits

Numbers of the least positive single-precision number are natural numbers, and those that single
precision can hold have at most twenty-four binary digits before their trailing zeros. The question
here is when a subtraction that is rounded to such a number makes the number less.
-/

namespace Volley.Nearest

/-- A significand and the power of two it counts; only at the power zero may digits be missing. -/
def Canonical (m k : Nat) : Prop :=
  m < 2 ^ 24 ∧ (k = 0 ∨ 2 ^ 23 ≤ m)

/-- A quotient, rounded up or down by its remainder; to the even one if the
remainder is just a half. -/
def roundedQuotient (q r d : Nat) : Nat :=
  if 2 * r < d then q else if d < 2 * r then q + 1 else q + q % 2

/-- How many binary digits a number has in excess of twenty-four. -/
def excess (n : Nat) : Nat :=
  n.log2 - 23

def significand (n : Nat) : Nat :=
  roundedQuotient (n / 2 ^ excess n) (n % 2 ^ excess n) (2 ^ excess n)

/-- The closest number of at most twenty-four digits. -/
def nearest (n : Nat) : Nat :=
  significand n * 2 ^ excess n

theorem excess_eq_zero {n : Nat} (hn : n < 2 ^ 24) : excess n = 0 := by
  unfold excess
  by_cases hzero : n = 0
  · rw [hzero]
    rfl
  · have hlog := (Nat.log2_lt hzero).mpr hn
    omega

theorem excess_eq {q r s : Nat} (hlow : 2 ^ 23 ≤ q) (hhigh : q < 2 ^ 24) (hr : r < 2 ^ s) :
    excess (q * 2 ^ s + r) = s := by
  have hpos : q * 2 ^ s + r ≠ 0 := by
    have hprod : 0 < q * 2 ^ s := Nat.mul_pos (by omega) (Nat.two_pow_pos s)
    omega
  have hlog : (q * 2 ^ s + r).log2 = 23 + s := by
    refine (Nat.log2_eq_iff hpos).mpr ⟨?_, ?_⟩
    · calc
        2 ^ (23 + s) = 2 ^ 23 * 2 ^ s := Nat.pow_add 2 23 s
        _ ≤ q * 2 ^ s := Nat.mul_le_mul_right _ hlow
        _ ≤ q * 2 ^ s + r := Nat.le_add_right _ _
    · calc
        q * 2 ^ s + r < q * 2 ^ s + 2 ^ s := Nat.add_lt_add_left hr _
        _ = (q + 1) * 2 ^ s := (Nat.succ_mul q (2 ^ s)).symm
        _ ≤ 2 ^ 24 * 2 ^ s := Nat.mul_le_mul_right _ hhigh
        _ = 2 ^ (23 + s + 1) := by rw [← Nat.pow_add, show 24 + s = 23 + s + 1 by omega]
  rw [excess, hlog]
  omega

theorem nearest_eq_self {n : Nat} (hn : n < 2 ^ 24) : nearest n = n := by
  rw [nearest, significand, excess_eq_zero hn, roundedQuotient]
  simp [Nat.mod_one]

theorem nearest_eq {q r s : Nat} (hlow : 2 ^ 23 ≤ q) (hhigh : q < 2 ^ 24) (hr : r < 2 ^ s) :
    nearest (q * 2 ^ s + r) = roundedQuotient q r (2 ^ s) * 2 ^ s := by
  have hquotient : (q * 2 ^ s + r) / 2 ^ s = q := by
    rw [Nat.mul_comm, Nat.mul_add_div (Nat.two_pow_pos s), Nat.div_eq_of_lt hr, Nat.add_zero]
  have hremainder : (q * 2 ^ s + r) % 2 ^ s = r := by
    rw [Nat.mul_comm, Nat.mul_add_mod, Nat.mod_eq_of_lt hr]
  rw [nearest, significand, excess_eq hlow hhigh hr, hquotient, hremainder]

theorem exists_split {n : Nat} (hn : 2 ^ 24 ≤ n) :
    ∃ q r, 2 ^ 23 ≤ q ∧ q < 2 ^ 24 ∧ r < 2 ^ excess n ∧ n = q * 2 ^ excess n + r := by
  have hne : n ≠ 0 := by omega
  obtain ⟨hlow, hhigh⟩ := (Nat.log2_eq_iff hne).mp rfl
  have hlog : 24 ≤ n.log2 := (Nat.le_log2 hne).mpr hn
  have hsum : n.log2 = 23 + excess n := by
    unfold excess
    omega
  rw [hsum] at hlow hhigh
  rw [Nat.pow_add] at hlow
  rw [show 23 + excess n + 1 = 24 + excess n by omega, Nat.pow_add] at hhigh
  refine ⟨n / 2 ^ excess n, n % 2 ^ excess n, ?_, ?_, Nat.mod_lt _ (Nat.two_pow_pos _), ?_⟩
  · exact (Nat.le_div_iff_mul_le (Nat.two_pow_pos _)).mpr hlow
  · exact (Nat.div_lt_iff_lt_mul (Nat.two_pow_pos _)).mpr hhigh
  · rw [Nat.mul_comm]
    exact (Nat.div_add_mod n _).symm

theorem roundedQuotient_le (q r d : Nat) : roundedQuotient q r d ≤ q + 1 := by
  unfold roundedQuotient
  split
  · omega
  · split <;> omega

theorem le_roundedQuotient (q r d : Nat) : q ≤ roundedQuotient q r d := by
  unfold roundedQuotient
  split
  · exact le_rfl
  · split <;> omega

theorem Canonical.excess_eq {m k : Nat} (hcanonical : Canonical m k) : excess (m * 2 ^ k) = k := by
  obtain ⟨hm, rfl | hleast⟩ := hcanonical
  · rw [Nat.pow_zero, Nat.mul_one]
    exact excess_eq_zero hm
  · exact Nearest.excess_eq (r := 0) hleast hm (Nat.two_pow_pos k)

/-- Numbers are ordered as the powers are, and under the same power as the significands are. -/
theorem Canonical.mul_lt_mul {m k n j : Nat} (hm : Canonical m k) (hn : Canonical n j)
    (hlt : j * 2 ^ 23 + n < k * 2 ^ 23 + m) : n * 2 ^ j < m * 2 ^ k := by
  obtain ⟨hm, hmleast⟩ := hm
  obtain ⟨hn, hnleast⟩ := hn
  by_cases hsame : j = k
  · rw [hsame]
    exact Nat.mul_lt_mul_of_pos_right (by omega) (Nat.two_pow_pos k)
  · have hpower : j + 1 ≤ k := by omega
    calc
      n * 2 ^ j < 2 ^ 24 * 2 ^ j := Nat.mul_lt_mul_of_pos_right hn (Nat.two_pow_pos j)
      _ = 2 ^ 23 * 2 ^ (j + 1) := by rw [Nat.pow_succ]; omega
      _ ≤ 2 ^ 23 * 2 ^ k := Nat.mul_le_mul_left _ (Nat.pow_le_pow_right (by omega) hpower)
      _ ≤ m * 2 ^ k := Nat.mul_le_mul_right _ (by omega)

theorem Canonical.eq_of_code_eq {m k n j : Nat} (hm : Canonical m k) (hn : Canonical n j)
    (hcode : j * 2 ^ 23 + n = k * 2 ^ 23 + m) : n = m ∧ j = k := by
  obtain ⟨hm, hmleast⟩ := hm
  obtain ⟨hn, hnleast⟩ := hn
  omega

theorem Canonical.mul_lt_mul_iff {m k n j : Nat} (hm : Canonical m k) (hn : Canonical n j) :
    n * 2 ^ j < m * 2 ^ k ↔ j * 2 ^ 23 + n < k * 2 ^ 23 + m := by
  refine ⟨fun hlt => ?_, hm.mul_lt_mul hn⟩
  by_contra hge
  rcases Nat.lt_or_eq_of_le (Nat.not_lt.mp hge) with hgt | heq
  · exact Nat.lt_asymm hlt (hn.mul_lt_mul hm hgt)
  · obtain ⟨rfl, rfl⟩ := hm.eq_of_code_eq hn heq.symm
    exact Nat.lt_irrefl _ hlt

theorem Canonical.power_le {m k n j : Nat} (hn : Canonical n j) (hm : Canonical m k)
    (hle : n * 2 ^ j ≤ m * 2 ^ k) : j ≤ k := by
  have hcode := mt (hn.mul_lt_mul_iff hm).mpr (Nat.not_lt.mpr hle)
  obtain ⟨hm, -⟩ := hm
  obtain ⟨-, hnleast⟩ := hn
  omega

theorem Canonical.eq_of_mul_eq {m k n j : Nat} (hm : Canonical m k) (hn : Canonical n j)
    (heq : n * 2 ^ j = m * 2 ^ k) : n = m ∧ j = k := by
  have hlow := mt (hm.mul_lt_mul_iff hn).mpr (Nat.not_lt.mpr heq.ge)
  have hhigh := mt (hn.mul_lt_mul_iff hm).mpr (Nat.not_lt.mpr heq.le)
  exact hm.eq_of_code_eq hn (by omega)

/-- Below a power of two that has all its digits, the digits are finer. -/
theorem Canonical.finer {n j k : Nat} (hn : Canonical n j) (hk : 0 < k)
    (hlt : n * 2 ^ j < 2 ^ 23 * 2 ^ k) :
    2 * 2 ^ j ≤ 2 ^ k := by
  have hleast : Canonical (2 ^ 23) k := ⟨by omega, Or.inr le_rfl⟩
  have hcode := (hleast.mul_lt_mul_iff hn).mp hlt
  obtain ⟨-, hnleast⟩ := hn
  have hpower : j + 1 ≤ k := by omega
  calc
    2 * 2 ^ j = 2 ^ (j + 1) := by rw [Nat.pow_succ, Nat.mul_comm]
    _ ≤ 2 ^ k := Nat.pow_le_pow_right (by omega) hpower

/-- A significand that is rounded up may come to need one more digit; it is a power of two then. -/
theorem significand_canonical {n : Nat} (hn : 0 < n) :
    0 < significand n ∧ (Canonical (significand n) (excess n) ∨ significand n = 2 ^ 24) := by
  by_cases hsmall : n < 2 ^ 24
  · have hself : significand n = n := by
      have hnearest := nearest_eq_self hsmall
      rwa [nearest, excess_eq_zero hsmall, Nat.pow_zero, Nat.mul_one] at hnearest
    rw [hself]
    exact ⟨hn, Or.inl ⟨hsmall, Or.inl (excess_eq_zero hsmall)⟩⟩
  · obtain ⟨q, r, hlow, hhigh, hr, hsplit⟩ := exists_split (Nat.not_lt.mp hsmall)
    have hround := nearest_eq hlow hhigh hr
    rw [← hsplit, nearest] at hround
    rw [Nat.mul_right_cancel (Nat.two_pow_pos _) hround]
    have hle := roundedQuotient_le q r (2 ^ excess n)
    have hge := le_roundedQuotient q r (2 ^ excess n)
    unfold Canonical
    omega

theorem nearest_le {n m k : Nat} (hcanonical : m < 2 ^ 24)
    (hle : n ≤ m * 2 ^ k) : nearest n ≤ m * 2 ^ k := by
  by_cases hn : n < 2 ^ 24
  · rw [nearest_eq_self hn]
    exact hle
  · obtain ⟨q, r, hlow, hhigh, hr, hsplit⟩ := exists_split (Nat.not_lt.mp hn)
    generalize excess n = s at hr hsplit
    subst hsplit
    rw [nearest_eq hlow hhigh hr]
    have hs : s ≤ k := by
      by_contra hlt
      have hpow : 2 ^ (k + 1) ≤ 2 ^ s := Nat.pow_le_pow_right (by omega) (by omega)
      rw [Nat.pow_succ] at hpow
      have hbig : 2 ^ 23 * 2 ^ s ≤ q * 2 ^ s := Nat.mul_le_mul_right _ hlow
      have hsmall : m * 2 ^ k < 2 ^ 24 * 2 ^ k :=
        Nat.mul_lt_mul_of_pos_right hcanonical (Nat.two_pow_pos k)
      omega
    obtain ⟨gap, rfl⟩ := Nat.exists_eq_add_of_le hs
    rw [Nat.pow_add, Nat.mul_comm (2 ^ s), ← Nat.mul_assoc] at hle ⊢
    by_cases hexact : r = 0
    · have hrounded : roundedQuotient q r (2 ^ s) = q := by
        rw [roundedQuotient, if_pos]
        rw [hexact]
        exact Nat.two_pow_pos s
      rw [hrounded]
      omega
    · refine Nat.mul_le_mul_right _ ((roundedQuotient_le q r _).trans ?_)
      have hlt : q * 2 ^ s < m * 2 ^ gap * 2 ^ s := by omega
      exact Nat.lt_of_mul_lt_mul_right hlt

/-! What is taken away counts if it is more than half of the last digit. If it is less than
that, the number may still become less, where the digits below it are finer, or where it is just
a half and the last digit is odd. -/

variable {m k f : Nat}

theorem split_below (hm : 0 < m) (hf : f ≤ 2 ^ k) :
    m * 2 ^ k - f = (m - 1) * 2 ^ k + (2 ^ k - f) := by
  have hsplit : m * 2 ^ k = (m - 1) * 2 ^ k + 2 ^ k := by
    rw [← Nat.succ_mul, Nat.succ_eq_add_one, Nat.sub_add_cancel hm]
  omega

theorem pred_mul_lt (hm : 0 < m) : (m - 1) * 2 ^ k < m * 2 ^ k :=
  Nat.mul_lt_mul_of_pos_right (Nat.sub_lt hm Nat.one_pos) (Nat.two_pow_pos k)

theorem least_mul (hk : 0 < k) : 2 ^ 23 * 2 ^ k = 2 ^ 24 * 2 ^ (k - 1) := by
  obtain ⟨j, rfl⟩ := Nat.exists_eq_succ_of_ne_zero (Nat.pos_iff_ne_zero.mp hk)
  rw [Nat.succ_sub_one, Nat.pow_succ]
  omega

theorem two_pow_eq (hk : 0 < k) : 2 ^ k = 2 * 2 ^ (k - 1) := by
  obtain ⟨j, rfl⟩ := Nat.exists_eq_succ_of_ne_zero (Nat.pos_iff_ne_zero.mp hk)
  rw [Nat.succ_sub_one, Nat.pow_succ, Nat.mul_comm]

theorem nearest_sub_lt (hcanonical : Canonical m k) (hf : 0 < f) (hle : f ≤ m * 2 ^ k)
    (hdigit : 2 ^ k < 2 * f) :
    nearest (m * 2 ^ k - f) < m * 2 ^ k := by
  obtain ⟨hm, hleast⟩ := hcanonical
  have hpos : 0 < m := by
    apply Nat.pos_of_ne_zero
    intro hzero
    rw [hzero, Nat.zero_mul] at hle
    omega
  by_cases hboundary : m = 2 ^ 23 ∧ 0 < k
  · obtain ⟨rfl, hk⟩ := hboundary
    rw [least_mul hk]
    have hpow := two_pow_eq hk
    refine Nat.lt_of_le_of_lt (nearest_le (m := 2 ^ 24 - 1) (k := k - 1) (by omega) ?_)
      (pred_mul_lt (by omega))
    omega
  · by_cases hlarge : 2 ^ k ≤ f
    · refine Nat.lt_of_le_of_lt (nearest_le (m := m - 1) (k := k) (by omega) ?_) (pred_mul_lt hpos)
      have hsplit := split_below (f := 2 ^ k) hpos le_rfl
      omega
    · have hk : 0 < k := by
        apply Nat.pos_of_ne_zero
        intro hzero
        rw [hzero] at hlarge
        omega
      rw [split_below hpos (by omega), nearest_eq (by omega) (by omega) (by omega), roundedQuotient,
        if_pos (by omega)]
      exact pred_mul_lt hpos

theorem of_nearest_sub_lt (hcanonical : Canonical m k) (hf : 0 < f) (hdigit : 2 * f ≤ 2 ^ k)
    (hlt : nearest (m * 2 ^ k - f) < m * 2 ^ k) :
    m = 2 ^ 23 ∧ 2 ^ k < 2 * (2 * f) ∨
      m % 2 = 1 ∧ 2 ^ 23 < m ∧ 2 * f = 2 ^ k ∧ nearest (m * 2 ^ k - f) = (m - 1) * 2 ^ k := by
  obtain ⟨hm, hleast⟩ := hcanonical
  have hk : 0 < k := by
    apply Nat.pos_of_ne_zero
    intro hzero
    rw [hzero] at hdigit
    omega
  have hpow := two_pow_eq hk
  by_cases hboundary : m = 2 ^ 23
  · refine Or.inl ⟨hboundary, ?_⟩
    rw [hboundary, least_mul hk, split_below (by omega) (by omega),
      nearest_eq (by omega) (by omega) (by omega)] at hlt
    have hquotient := Nat.lt_of_mul_lt_mul_right hlt
    rw [roundedQuotient] at hquotient
    split at hquotient
    · omega
    · split at hquotient <;> omega
  · right
    have hround := nearest_eq (q := m - 1) (r := 2 ^ k - f) (s := k) (by omega)
      (by omega) (by omega)
    rw [← split_below (by omega) (by omega)] at hround
    rw [hround] at hlt
    have hquotient := Nat.lt_of_mul_lt_mul_right hlt
    rw [hround]
    rw [roundedQuotient, if_neg (by omega)] at hquotient ⊢
    split at hquotient
    · omega
    · rename_i hhalf
      rw [if_neg hhalf]
      refine ⟨by omega, by omega, by omega, ?_⟩
      rw [show m - 1 + (m - 1) % 2 = m - 1 by omega]

end Volley.Nearest
