import Volley.Number.Decimal
import Volley.Table

/-!
# JSON trees

`Json ν` is a JSON value whose numbers are `ν`: numerals in a text as it is written, numbers
once their value counts. A free-form value is a tree of numbers with the members of every
object in the order of their keys.
-/

namespace Volley

/-- A JSON value. A string of `none` holds half a surrogate pair, so it is
grammatical but stands for no string. -/
inductive Json (ν : Type) where
  | null
  | bool (value : Bool)
  | number (value : ν)
  | text (value : Option String)
  | array (items : List (Json ν))
  | object (members : List (Option String × Json ν))
  deriving Repr

namespace Json

def string {ν : Type} (s : String) : Json ν :=
  .text (some s)

def record {ν : Type} (members : List (String × Json ν)) : Json ν :=
  .object (members.map fun member => (some member.1, member.2))

end Json

/-- The value of a numeral: a whole number that fits in 64 bits stays whole. -/
inductive Json.Number where
  | integer (n : Int)
  | real (x : Float)
  deriving BEq, Repr

namespace Json.Number

def toSingle : Json.Number → Float32
  | .integer n => single (if n < 0 then .negative else .positive) n.natAbs 0
  | .real x => narrow x

def numeral : Json.Number → Numeral
  | .integer n => .ofInt n
  | .real x =>
      match figureDouble .storedDouble x with
      | .finite numeral => numeral
      | _ => .ofInt 0

/-- Extends a significand by digits as long as it fits in 64 bits, and returns
the digits that are left. -/
def absorb : (significand : Nat) → List Nat → Nat × List Nat
  | significand, [] => (significand, [])
  | significand, d :: ds =>
      if 10 * significand + d < UInt64.size then absorb (10 * significand + d) ds
      else (significand, d :: ds)

def tenPower (n : Nat) : Float :=
  .ofScientific 1 false n

/-- The greatest power of ten that is a finite double-precision number. -/
def greatestPower : Nat :=
  308

/-- `x * 10 ^ n`, unless it overflows. -/
def scaleUp? (x : Float) (n : Nat) : Option Float :=
  if n ≤ greatestPower then
    let product := x * tenPower n
    if product.isInf then none else some product
  else if x == 0 then some x else none

/-- `x / 10 ^ n`, in steps of the greatest power of ten. -/
def scaleDown (x : Float) (n : Nat) : Float :=
  if n ≤ greatestPower then x / tenPower n
  else if x == 0 then x
  else scaleDown (x / tenPower greatestPower) (n - greatestPower)
termination_by n
decreasing_by simp only [greatestPower] at *; omega

/-- The value of a numeral. The digits that fit in 64 bits are scaled by one power of ten; a numeral
beyond the double-precision range has no value. -/
def ofNumeral? (numeral : Numeral) : Option Json.Number :=
  let (whole, unread) := absorb 0 (digits numeral.whole)
  if unread.isEmpty && numeral.fraction.isEmpty && numeral.exponent.isNone then
    if !numeral.negative then some (.integer whole)
    else if 0 < whole ∧ whole ≤ UInt64.size / 2 then some (.integer (-whole))
    else some (.real (-(UInt64.ofNat whole).toFloat))
  else
    let (significand, dropped) := absorb whole numeral.fraction
    let places : Int := numeral.fraction.length - dropped.length
    let exponent : Int := unread.length - places + numeral.exponent.getD 0
    let x := (UInt64.ofNat significand).toFloat
    let scaled :=
      if 0 ≤ exponent then scaleUp? x exponent.toNat else some (scaleDown x (-exponent).toNat)
    scaled.map fun y => .real (if numeral.negative then -y else y)

end Json.Number

/-- Number leaves that have a value. -/
class Numeric (ν : Type) where
  value? : ν → Option Json.Number

instance : Numeric Numeral := ⟨Json.Number.ofNumeral?⟩

instance : Numeric Json.Number := ⟨some⟩

/-- A value of no fixed shape. -/
abbrev FreeForm := Json Json.Number

namespace Json

mutual

/-- Two free-form values are equal if their numbers are, in the sense of `==`. -/
def same : FreeForm → FreeForm → Bool
  | .null, .null => true
  | .bool a, .bool b => a == b
  | .number a, .number b => a == b
  | .text a, .text b => a == b
  | .array as, .array bs => sameItems as bs
  | .object as, .object bs => sameMembers as bs
  | _, _ => false

def sameItems : List FreeForm → List FreeForm → Bool
  | [], [] => true
  | a :: as, b :: bs => same a b && sameItems as bs
  | _, _ => false

def sameMembers : List (Option String × FreeForm) → List (Option String × FreeForm) → Bool
  | [], [] => true
  | (k, a) :: as, (l, b) :: bs => k == l && same a b && sameMembers as bs
  | _, _ => false

end

instance : BEq FreeForm := ⟨same⟩

mutual

/-- The text form of a free-form value. -/
def written : FreeForm → Json Numeral
  | .null => .null
  | .bool b => .bool b
  | .number n => .number n.numeral
  | .text s => .text s
  | .array items => .array (writtenItems items)
  | .object members => .object (writtenMembers members)

def writtenItems : List FreeForm → List (Json Numeral)
  | [] => []
  | item :: rest => written item :: writtenItems rest

def writtenMembers : List (Option String × FreeForm) → List (Option String × Json Numeral)
  | [] => []
  | (key, value) :: rest => (key, written value) :: writtenMembers rest

end

end Json

end Volley
