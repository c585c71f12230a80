import Mathlib
import Volley.Json.Encoder
import Volley.Proofs.Json.FreeForm
import Volley.Proofs.Json.Lexemes
import Volley.Proofs.Number.Shortest
import Volley.Proofs.Number.Value

/-!
# Single-precision numbers in texts

A finite single-precision number is decoded again from its shortest digits, although
they are read in double precision.
-/

namespace Volley

/-! ## Reading digits -/

/-- A significand that is extended by digits. -/
def extendDigits (significand : Nat) (ds : List Nat) : Nat :=
  ds.foldl (fun n d => 10 * n + d) significand

theorem le_extendDigits (significand : Nat) (ds : List Nat) :
    significand ≤ extendDigits significand ds := by
  induction ds generalizing significand with
  | nil => exact le_rfl
  | cons d ds ih => exact le_trans (by omega) (ih (10 * significand + d))

theorem extendDigits_ofDigits (front rest : List Nat) :
    extendDigits (ofDigits front) rest = ofDigits (front ++ rest) :=
  List.foldl_append.symm

theorem extendDigits_replicate (n : Nat) (ds : List Nat) :
    extendDigits 0 (List.replicate n 0 ++ ds) = ofDigits ds := by
  induction n with
  | zero => rfl
  | succ n ih => exact ih

namespace Json.Number

theorem absorb_eq {significand : Nat} {ds : List Nat}
    (hfits : extendDigits significand ds < UInt64.size) :
    absorb significand ds = (extendDigits significand ds, []) := by
  induction ds generalizing significand with
  | nil => rfl
  | cons d ds ih =>
      rw [absorb, if_pos ((le_extendDigits _ ds).trans_lt hfits)]
      exact ih hfits

/-- A whole number times a power of ten, in double precision. -/
def scaled? (s : Nat) (e : Int) : Option Float :=
  if 0 ≤ e then scaleUp? (UInt64.ofNat s).toFloat e.toNat
    else some (scaleDown (UInt64.ofNat s).toFloat (-e).toNat)

/-- A numeral with a fraction or an exponent, whose digits fit together, is scaled once. -/
theorem ofNumeral?_eq {numeral : Numeral}
    (hparts : (numeral.fraction.isEmpty && numeral.exponent.isNone) = false)
    (hfits : extendDigits numeral.whole numeral.fraction < UInt64.size) :
    ofNumeral? numeral =
      (scaled? (extendDigits numeral.whole numeral.fraction)
        (numeral.exponent.getD 0 - numeral.fraction.length)).map
        fun y => .real (if numeral.negative then -y else y) := by
  have hwhole := absorb_digits ((le_extendDigits _ numeral.fraction).trans_lt hfits)
  rw [ofNumeral?, hwhole]
  dsimp only
  rw [Bool.and_assoc, hparts, Bool.and_false, if_neg Bool.false_ne_true, absorb_eq hfits]
  dsimp only
  rw [scaled?, show (([] : List Nat).length : Int) -
    (numeral.fraction.length - ([] : List Nat).length) +
    numeral.exponent.getD 0 = numeral.exponent.getD 0 - numeral.fraction.length by simp; omega]

end Json.Number

/-! ## Scaling -/

theorem Double.Holds.isInf_eq_false {x : Float} {sign : Float.Model.UnpackedFloat.Sign} {m : Nat}
    {e : ℤ} (h : Double.Holds x sign m e) : x.isInf = false := by
  obtain ⟨hm, hunpack⟩ := h.unpack
  change x.toModel.unpack.isInf = false
  rw [hunpack]
  rfl

namespace Json.Number

/-- Scaling rounds the whole number times what is held of the power of ten. -/
theorem exists_scaled? {s : Nat} (hs : 0 < s) (hdigits : s < 2 ^ 53) {e : ℤ} (he : e.natAbs < 54) :
    ∃ y, scaled? s e = some y ∧ Double.Rounds y (s * heldScale e) := by
  obtain ⟨m, f, hholds, hvalue, hlow, hhigh⟩ := Double.exists_holds_ofNat hs hdigits
  rw [scaled?, heldScale]
  by_cases hup : 0 ≤ e
  · obtain ⟨m', f', hholds', hvalue', hlow', hhigh'⟩ :=
      exists_holds_tenPower (n := e.toNat) (by omega)
    have hrounds := Double.rounds_mul hholds hholds' (by omega) (by omega)
    obtain ⟨⟨_, _, hproduct, -⟩⟩ := id hrounds
    rw [hvalue, hvalue'] at hrounds
    refine ⟨_, ?_, by rw [if_pos hup]; exact hrounds⟩
    rw [if_pos hup, scaleUp?, if_pos (show e.toNat ≤ greatestPower by rw [greatestPower]; omega)]
    dsimp only
    rw [hproduct.isInf_eq_false, if_neg Bool.false_ne_true]
  · obtain ⟨m', f', hholds', hvalue', hlow', hhigh'⟩ :=
      exists_holds_tenPower (n := (-e).toNat) (by omega)
    have hrounds := Double.rounds_div hholds hholds' (by omega) (by omega)
    rw [hvalue, hvalue', div_eq_mul_one_div] at hrounds
    refine ⟨_, ?_, by rw [if_neg hup]; exact hrounds⟩
    rw [if_neg hup, scaleDown,
      if_pos (show (-e).toNat ≤ greatestPower by rw [greatestPower]; omega)]

end Json.Number

/-! ## Layouts -/

namespace Json.Number

variable {c : Nat} {e : ℤ}

theorem exists_ofNumeral? (numeral : Numeral)
    (hparts : (numeral.fraction.isEmpty && numeral.exponent.isNone) = false)
    (hdigits : extendDigits numeral.whole numeral.fraction = c) (hc : 0 < c) (hfew : c < 2 ^ 53)
    (hexponent : numeral.exponent.getD 0 - numeral.fraction.length = e) (he : e.natAbs < 54) :
    ∃ y, ofNumeral? numeral = some (.real (if numeral.negative then -y else y)) ∧
      Double.Rounds y (c * heldScale e) := by
  obtain ⟨y, hscaled, hrounds⟩ := exists_scaled? hc hfew he
  refine ⟨y, ?_, hrounds⟩
  have hfits : c < UInt64.size := hfew.trans (by decide)
  rw [ofNumeral?_eq hparts (by rw [hdigits]; exact hfits), hdigits, hexponent, hscaled,
    Option.map_some]

/-- A whole number in positional form is read with the zero behind its point,
and divided by ten again. -/
theorem exists_ofNumeral?_whole (hc : 0 < c) {n : Nat} (hfew : c * 10 ^ n < 10 ^ 13)
    (negative : Bool) :
    ∃ y, ofNumeral? { negative, whole := c * 10 ^ n, fraction := [0], exponent := none } =
        some (.real (if negative then -y else y)) ∧ Double.Rounds y (c * heldScale n) := by
  have hpos : 0 < c * 10 ^ n := Nat.mul_pos hc (Nat.pow_pos (by decide))
  obtain ⟨y, hread, hrounds⟩ := exists_ofNumeral?
    { negative, whole := c * 10 ^ n, fraction := [0], exponent := none } (e := -1) rfl
    (show _ = 10 * (c * 10 ^ n) from rfl) (by omega) (by omega) rfl (by decide)
  refine ⟨y, hread, ?_⟩
  have hvalue : (10 * (c * 10 ^ n) : ℕ) * heldScale (-1) = c * heldScale n := by
    have hpower : 10 ^ n < 2 ^ 53 := (Nat.le_mul_of_pos_left _ hc).trans_lt (hfew.trans (by decide))
    rw [heldScale, heldScale, if_neg (by decide), if_pos (by omega), Int.toNat_natCast,
      heldPower_eq hpower,
      show (-(-1 : ℤ)).toNat = 1 from rfl, heldPower_eq (by decide)]
    push_cast
    ring
  rwa [hvalue] at hrounds

theorem exists_ofNumeral?_storedSingle (hc : 0 < c) (hdigits : c < 2 ^ 28) (he : e.natAbs < 54)
    (negative : Bool) :
    ∃ y, ofNumeral? (Layout.storedSingle.numeral negative { coefficient := c, exponent := e }) =
        some (.real (if negative then -y else y)) ∧ Double.Rounds y (c * heldScale e) := by
  have hfew : c < 2 ^ 53 := hdigits.trans (by decide)
  have hlength := List.length_pos_iff.mpr (digits_ne_nil c)
  have hall (count : Nat) :
      extendDigits (ofDigits ((digits c).take count)) ((digits c).drop count) = c := by
    rw [extendDigits_ofDigits, List.take_append_drop, ofDigits_digits]
  rw [Layout.numeral]
  dsimp only
  split
  · rename_i hpositional
    obtain ⟨hleading, hleading'⟩ := of_decide_eq_true hpositional
    split
    · rename_i hwhole
      obtain ⟨n, rfl⟩ := Int.eq_ofNat_of_zero_le hwhole
      refine exists_ofNumeral?_whole hc ?_ negative
      calc c * 10 ^ n < 10 ^ (digits c).length * 10 ^ n :=
            Nat.mul_lt_mul_of_pos_right (lt_pow_length_digits c) (Nat.pow_pos (by decide))
        _ = 10 ^ ((digits c).length + n) := (Nat.pow_add _ _ _).symm
        _ ≤ 10 ^ 13 := Nat.pow_le_pow_right (by decide) (by omega)
    · split
      · refine exists_ofNumeral? _ ?_ (hall _) hc hfew ?_ he
        · rw [Option.isNone_none, Bool.and_true, List.isEmpty_eq_false_iff, ← List.length_pos_iff,
            List.length_drop]
          omega
        · dsimp only
          rw [List.length_drop, Option.getD_none]
          omega
      · refine exists_ofNumeral? _ ?_ ((extendDigits_replicate _ _).trans (ofDigits_digits c))
          hc hfew ?_ he
        · rw [Option.isNone_none, Bool.and_true, List.isEmpty_eq_false_iff, ← List.length_pos_iff,
            List.length_append]
          omega
        · dsimp only
          rw [List.length_append, List.length_replicate, Option.getD_none]
          omega
  · refine exists_ofNumeral? _ (by rw [Option.isNone_some, Bool.and_false]) (hall 1) hc hfew ?_ he
    dsimp only
    rw [List.length_drop, Option.getD_some]
    omega

end Json.Number

/-! ## Decoding what is written -/

open Float.Model Float.Model.UnpackedFloat

theorem narrow_of_unpack {y : Float} {sign : Sign} {m : Nat} {e : ℤ} {hm : 0 < m}
    (h : y.toModel.unpack = .finite sign m e hm) : narrow y = single sign m e := by
  rw [narrow, h]

/-- What a short decimal of a number is rounded to as a double is rounded to the number. -/
theorem narrow_of_rounds {x : Float32} {y : Float} {sign : Sign} {m k : Nat} {hm : 0 < m}
    {d : Decimal} (hx : x.toModel.unpack = .finite sign m (k - 149) hm)
    (hcanonical : Nearest.Canonical m k) (hk : k < 254) (hd : Single.Short m k d)
    (hy : Double.Rounds y (d.coefficient * heldScale d.exponent)) :
    narrow (if (sign == .negative) = true then -y else y) = x := by
  obtain ⟨n, e, hholds, hnear⟩ := hy
  have hhits := hd.hits_near hm hcanonical hk hnear
  have hheld : Double.Holds (if (sign == .negative) = true then -y else y) sign n e := by
    cases sign
    · exact hholds.neg
    · exact hholds
  obtain ⟨hn, hunpack⟩ := hheld.unpack
  rw [narrow_of_unpack hunpack, single, Single.round_of_hits hm hcanonical hn hhits, ← hx]
  exact congrArg Float32.ofModel (Single.pack_unpack_toModel x)

theorem Decoder.single_ofFigure_zero (sign : Sign) (room : Room) :
    single room (Json.ofFigure (figure .binary32 .storedSingle (.zero sign))) =
      some (.ofModel (.pack (.zero sign))) := by
  change (Json.Number.ofNumeral? (Layout.storedSingle.numeral (sign == .negative) _)).map _ = _
  cases sign <;> decide +kernel

/-- A number is decoded again from what is written of it exactly if it is finite. -/
@[simp]
theorem Decoder.single_ofSingle_eq_iff (room : Room) (x : Float32) :
    single room (Json.ofSingle x) = some x ↔ x.isFinite = true := by
  rw [Single.isFinite_eq, Json.ofSingle, figureSingle]
  cases hunpack : x.toModel.unpack with
  | notANumber => exact iff_of_false (Option.some_ne_none x).symm Bool.false_ne_true
  | infinity sign => exact iff_of_false (Option.some_ne_none x).symm Bool.false_ne_true
  | zero sign =>
      refine iff_of_true ?_ rfl
      rw [single_ofFigure_zero, ← hunpack]
      exact congrArg (some ∘ Float32.ofModel) (Single.pack_unpack_toModel x)
  | finite sign m e hm =>
      refine iff_of_true ?_ rfl
      obtain ⟨k, hcanonical, rfl⟩ := Single.canonical_of_unpack hunpack
      have hk := Single.power_lt_of_unpack hunpack
      have hshort := Single.short_shortest hm hcanonical.1 (k := k) .even
      obtain ⟨y, hread, hrounds⟩ :=
        Json.Number.exists_ofNumeral?_storedSingle hshort.pos hshort.digits
        (hshort.natAbs_exponent_lt hm hcanonical.1 hk) (sign == .negative)
      change (Json.Number.ofNumeral? _).map _ = _
      exact (congrArg _ hread).trans
        (congrArg some (narrow_of_rounds hunpack hcanonical hk hshort hrounds))

end Volley
