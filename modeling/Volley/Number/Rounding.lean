/-!
# Single-precision rounding and ordering

Lengths, speeds and times are IEEE single-precision numbers. This file rounds exact binary values
and double-precision numbers to them, and fixes how comparisons treat values that are not numbers.
-/

namespace Volley

open Float.Model

/-- The single-precision number nearest to `mantissa * 2 ^ exponent`, a tie
going to the even one. -/
def single (sign : UnpackedFloat.Sign) (mantissa : Nat) (exponent : Int) : Float32 :=
  .ofModel (.pack (UnpackedFloat.round .binary32 sign mantissa exponent))

/-- The single-precision number nearest to a double-precision one. -/
def narrow (x : Float) : Float32 :=
  match x.toModel.unpack with
  | .finite sign mantissa exponent _ => single sign mantissa exponent
  | special => .ofModel (.pack special)

/-- The greater of two numbers; one that is not a number loses, and of two
equal ones the second stays. -/
def larger (x y : Float32) : Float32 :=
  if x.isNaN then y else if y.isNaN then x else if y < x then x else y

/-- The lesser of two numbers; one that is not a number loses, and of two
equal ones the first stays. -/
def smaller (x y : Float32) : Float32 :=
  if x.isNaN then y else if y.isNaN then x else if y < x then y else x

/-- Cuts `x` to the range from `low` to `high`, and keeps what is not a number. -/
def clamp (x low high : Float32) : Float32 :=
  let raised := if x < low then low else x
  if high < raised then high else raised

end Volley
