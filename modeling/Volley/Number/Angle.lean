import Volley.Number.Rounding

/-!
# Correctly rounded angles

The arc cosine and the two-argument arc tangent are computed in fixed-point arithmetic on natural
numbers and rounded once. Both come from the half-angle formula
`arctan t = 2 * arctan (t / (1 + sqrt (1 + t ^ 2)))`, applied until the power series is short.
-/

namespace Volley

open Float.Model

/-- Newton's iteration for the square root, from a guess that is not too small. -/
def sqrtFrom (n guess : Nat) : Nat :=
  let next := (guess + n / guess) / 2
  if next < guess then sqrtFrom n next else guess
termination_by guess

def natSqrt (n : Nat) : Nat :=
  sqrtFrom n (1 <<< (n.log2 / 2 + 1))

namespace Angle

/-- The value one with `bits` binary places. -/
def one (bits : Nat) : Nat :=
  1 <<< bits

/-- The tangent of half the angle whose tangent is `t`, at `bits` binary places. -/
def halfTangent (bits t : Nat) : Nat :=
  t * one bits / (one bits + natSqrt (one bits * one bits + t * t))

/-- `u - u ^ 3 / 3 + u ^ 5 / 5 - …` to the given number of terms, from the
term with divisor `odd` on. -/
def seriesFrom (bits square : Nat) : (terms odd power : Nat) → Int
  | 0, _, _ => 0
  | terms + 1, odd, power =>
      (power / odd : Nat) - seriesFrom bits square terms (odd + 2) (power * square / one bits)

/-- How often the angle is halved before the series is summed. -/
def halvings : Nat :=
  8

/-- The angle whose tangent is `t`, both at `bits` binary places. -/
def arctan (bits t : Nat) : Nat :=
  let u := Nat.repeat (halfTangent bits) halvings t
  let sum := seriesFrom bits (u * u / one bits) (bits / 8 + 2) 1 u
  sum.toNat <<< halvings

/-- Half a turn, in radians. -/
def half : Float32 :=
  3.14159265358979323846

def quarter : Float32 :=
  1.57079632679489661923

def eighth : Float32 :=
  0.785398163397448309616

def threeEighths : Float32 :=
  2.35619449019234492885

def signed (sign : UnpackedFloat.Sign) (x : Float32) : Float32 :=
  match sign with
  | .positive => x
  | .negative => -x

def undefined : Float32 :=
  .ofModel (.pack .notANumber)

/-- The angle between the positive first axis and the point `(x, y)`, for positive whole `x` and `y`
(`y` of either sign), with `left` telling that the point lies on the negative side of the axis. -/
def ofPoint (sign : UnpackedFloat.Sign) (left : Bool) (x y : Nat) : Float32 :=
  let spare := 128
  let scale : Nat := 1 <<< spare
  let length := natSqrt ((x * x + y * y) * scale * scale)
  let bits := spare + (x.log2 - y.log2)
  let tangent :=
    if left then (length + x * scale) * one bits / (y * scale)
    else y * scale * one bits / (length + x * scale)
  single sign (2 * arctan bits tangent) (-bits)

end Angle

/-- The angle from the positive first axis to the point `(x, y)`, in radians between minus half a
turn and half a turn; a zero counts with its sign. -/
def arctan2 (y x : Float32) : Float32 :=
  match y.toModel.unpack, x.toModel.unpack with
  | .notANumber, _ => Angle.undefined
  | _, .notANumber => Angle.undefined
  | .infinity sign, .infinity .positive => Angle.signed sign Angle.eighth
  | .infinity sign, .infinity .negative => Angle.signed sign Angle.threeEighths
  | .infinity sign, _ => Angle.signed sign Angle.quarter
  | .zero sign, .zero .positive => Angle.signed sign 0
  | .zero sign, .zero .negative => Angle.signed sign Angle.half
  | .zero sign, .infinity .positive => Angle.signed sign 0
  | .zero sign, .infinity .negative => Angle.signed sign Angle.half
  | .zero sign, .finite .positive _ _ _ => Angle.signed sign 0
  | .zero sign, .finite .negative _ _ _ => Angle.signed sign Angle.half
  | .finite sign _ _ _, .zero _ => Angle.signed sign Angle.quarter
  | .finite sign _ _ _, .infinity .positive => Angle.signed sign 0
  | .finite sign _ _ _, .infinity .negative => Angle.signed sign Angle.half
  | .finite sign ym ye _, .finite side xm xe _ =>
      let least := min ye xe
      Angle.ofPoint sign (side == .negative) (xm <<< (xe - least).toNat) (ym <<< (ye - least).toNat)

/-- The angle between zero and half a turn whose cosine is `x`, in radians;
outside `[-1, 1]` there is none. -/
def arccos (x : Float32) : Float32 :=
  match x.toModel.unpack with
  | .notANumber => Angle.undefined
  | .infinity _ => Angle.undefined
  | .zero _ => Angle.quarter
  | .finite sign mantissa exponent _ =>
      let unit : Nat := 1 <<< (-exponent).toNat
      let cosine := mantissa <<< exponent.toNat
      if unit < cosine then Angle.undefined
      else
        let sine := natSqrt (((unit - cosine) * (unit + cosine)) <<< 256)
        if sine = 0 then (if sign == .negative then Angle.half else 0)
        else Angle.ofPoint .positive (sign == .negative) (cosine <<< 128) sine

end Volley
