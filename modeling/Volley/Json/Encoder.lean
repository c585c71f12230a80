import Volley.Json.Decoder

/-!
# Encoding values as JSON

A number without a decimal is written as null, and so is a missing value.
-/

namespace Volley.Json

def ofFigure : Figure → Json Numeral
  | .finite numeral => .number numeral
  | _ => .null

/-- A single-precision number in the layout of stored texts. -/
def ofSingle (x : Float32) : Json Numeral :=
  ofFigure (figureSingle .storedSingle x)

def ofNat (n : Nat) : Json Numeral :=
  .number (.ofInt n)

def ofOption {α : Type} (encode : α → Json Numeral) : Option α → Json Numeral
  | some value => encode value
  | none => .null

def ofList {α : Type} (encode : α → Json Numeral) (values : List α) : Json Numeral :=
  .array (values.map encode)

/-- A member that is left out where its value is missing. -/
def member? {α : Type} (name : String)
    (encode : α → Json Numeral) : Option α → List (String × Json Numeral)
  | some value => [(name, encode value)]
  | none => []

end Volley.Json
