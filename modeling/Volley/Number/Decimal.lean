import Volley.Number.Rounding

/-!
# Shortest decimals

A finite binary number is written with the fewest decimal digits that still round back to it, and of
those with the digits nearest to it. Every bound of the interval that rounds to a number is itself
an exact decimal, so the search compares natural numbers only.
-/

namespace Volley

open Float.Model

/-- The decimal digits of a natural number, the leading one first. -/
def digits (n : Nat) : List Nat :=
  if n < 10 then [n] else digits (n / 10) ++ [n % 10]
termination_by n

def ofDigits (ds : List Nat) : Nat :=
  ds.foldl (fun n d => 10 * n + d) 0

/-- The number `coefficient * 10 ^ exponent`. -/
structure Decimal where
  coefficient : Nat
  exponent : Int
  deriving DecidableEq, Repr

/-- Moves trailing zeros of the coefficient into the exponent. -/
def Decimal.trim (d : Decimal) : Decimal :=
  if d.coefficient ≠ 0 ∧ d.coefficient % 10 = 0 then
    Decimal.trim { coefficient := d.coefficient / 10, exponent := d.exponent + 1 }
  else d
termination_by d.coefficient
decreasing_by omega

/-- Which of two decimals that are equally near is chosen. -/
inductive Tie where
  | even
  | up
  deriving DecidableEq, Repr

/-- The numbers that round to `value`: those between `low` and `high`, the
bounds included if `closed`. -/
structure Interval where
  low : Nat
  value : Nat
  high : Nat
  closed : Bool

def Interval.contains (i : Interval) (n : Nat) : Bool :=
  if i.closed then decide (i.low ≤ n ∧ n ≤ i.high) else decide (i.low < n ∧ n < i.high)

/-- The multiple of `10 ^ places` nearest to the value, if one next to the
value lies in the interval. -/
def Interval.onGrid? (i : Interval) (tie : Tie) (places : Nat) : Option Nat :=
  let grid := Nat.pow 10 places
  let down := i.value / grid
  let up := down + 1
  match i.contains (down * grid), i.contains (up * grid) with
  | false, false => none
  | true, false => some down
  | false, true => some up
  | true, true =>
      match compare (2 * i.value) ((down + up) * grid) with
      | .lt => some down
      | .gt => some up
      | .eq => if tie = .even ∧ down % 2 = 0 then some down else some up

/-- Looks for the coarsest grid of at most `places` dropped digits that meets the interval. -/
def Interval.coarsest (i : Interval) (tie : Tie) : (places : Nat) → Decimal
  | 0 => { coefficient := i.value, exponent := 0 }
  | places + 1 =>
      match i.onGrid? tie (places + 1) with
      | some n => { coefficient := n, exponent := (places + 1 : Nat) }
      | none => i.coarsest tie places

/-- The shortest decimal that rounds to `mantissa * 2 ^ exponent` in the given format. -/
def shortest (format : Format) (tie : Tie) (mantissa : Nat) (exponent : Int) : Decimal :=
  let lowest := mantissa = 1 <<< format.mantissaBitsWithoutImplicit ∧ format.minExponent < exponent
  let quarter := exponent - 2
  -- A power of two below one is `5 ^ k * 10 ^ (-k)`, so the bounds are whole multiples of a power
  -- of ten.
  let scale := if 0 ≤ quarter then 1 <<< quarter.toNat else Nat.pow 5 (-quarter).toNat
  let shift := min quarter 0
  let interval : Interval :=
    { low := (4 * mantissa - if lowest then 1 else 2) * scale
      value := 4 * mantissa * scale
      high := (4 * mantissa + 2) * scale
      closed := mantissa % 2 = 0 }
  let found := interval.coarsest tie ((digits interval.value).length)
  Decimal.trim { found with exponent := found.exponent + shift }

/-- A number as it is written down: a sign, the digits before and after the
point, and a power of ten. -/
structure Numeral where
  negative : Bool
  whole : Nat
  fraction : List Nat
  exponent : Option Int
  deriving DecidableEq, Repr

namespace Numeral

def digitChar (d : Nat) : Char :=
  Char.ofNat ('0'.toNat + d)

def spellDigits (ds : List Nat) : List Char :=
  ds.map digitChar

def spellExponent : Option Int → List Char
  | none => []
  | some (.ofNat n) => 'e' :: '+' :: spellDigits (digits n)
  | some (.negSucc n) => 'e' :: '-' :: spellDigits (digits (n + 1))

def spell (n : Numeral) : List Char :=
  (if n.negative then ['-'] else []) ++ spellDigits (digits n.whole) ++
    (if n.fraction.isEmpty then [] else '.' :: spellDigits n.fraction) ++ spellExponent n.exponent

def ofInt (n : Int) : Numeral :=
  { negative := n < 0, whole := n.natAbs, fraction := [], exponent := none }

end Numeral

/-- How decimals are laid out: which powers of ten of the leading digit need no exponent, whether a
whole number keeps a zero behind its point, and how ties between equally short digits go. -/
structure Layout where
  positional : Int → Bool
  pointZero : Bool
  tie : Tie

namespace Layout

def numeral (layout : Layout) (negative : Bool) (d : Decimal) : Numeral :=
  let ds := digits d.coefficient
  let leading : Int := (ds.length : Int) - 1 + d.exponent
  let tail := if layout.pointZero then [0] else []
  if layout.positional leading then
    if 0 ≤ d.exponent then
      { negative, whole := d.coefficient * Nat.pow 10 d.exponent.toNat, fraction := tail,
        exponent := none }
    else if 0 ≤ leading then
      let count := leading.toNat + 1
      { negative, whole := ofDigits (ds.take count), fraction := ds.drop count, exponent := none }
    else
      let zeros := (-leading).toNat - 1
      { negative, whole := 0, fraction := List.replicate zeros 0 ++ ds, exponent := none }
  else
    { negative, whole := ofDigits (ds.take 1), fraction := ds.drop 1, exponent := some leading }

/-- Single-precision numbers in stored texts need no exponent from a millionth to the trillions. -/
def storedSingle : Layout :=
  { positional := fun leading => decide (-6 ≤ leading ∧ leading ≤ 12),
    pointZero := true, tie := .even }

/-- Double-precision numbers in stored texts need no exponent from a
hundred-thousandth to sixteen digits. -/
def storedDouble : Layout :=
  { positional := fun leading => decide (-5 ≤ leading ∧ leading ≤ 15),
    pointZero := true, tie := .even }

/-- Numbers in messages are written out in full. -/
def message : Layout :=
  { positional := fun _ => true, pointZero := false, tie := .up }

end Layout

/-- What a number reads as: not a number, an infinity, or a numeral. -/
inductive Figure where
  | undefined
  | infinite (negative : Bool)
  | finite (numeral : Numeral)
  deriving DecidableEq, Repr

def figure (format : Format) (layout : Layout) : UnpackedFloat → Figure
  | .notANumber => .undefined
  | .infinity sign => .infinite (sign == .negative)
  | .zero sign => .finite (layout.numeral (sign == .negative) { coefficient := 0, exponent := 0 })
  | .finite sign mantissa exponent _ =>
      .finite (layout.numeral (sign == .negative) (shortest format layout.tie mantissa exponent))

def figureSingle (layout : Layout) (x : Float32) : Figure :=
  figure .binary32 layout x.toModel.unpack

def figureDouble (layout : Layout) (x : Float) : Figure :=
  figure .binary64 layout x.toModel.unpack

def messageText (x : Float32) : String :=
  match figureSingle .message x with
  | .undefined => "NaN"
  | .infinite false => "inf"
  | .infinite true => "-inf"
  | .finite numeral => String.ofList numeral.spell

end Volley
