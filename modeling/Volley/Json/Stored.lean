import Volley.Json.Encoder
import Volley.Json.Printer

/-!
# Stored values

A type is stored if its values have a form in JSON texts: a decoder takes every form that is
accepted, an encoder gives the one that is written.
-/

namespace Volley

class Stored (α : Type) where
  decode {ν : Type} [Numeric ν] : Decoder ν α
  encode : α → Json Numeral

namespace Stored

variable {α : Type} [Stored α]

def ofText? (text : String) : Option α :=
  (Json.read? text).bind (decode .ofText)

/-- Takes a value out of a free-form one, which may nest as deeply as it likes. -/
def ofFreeForm? (value : FreeForm) : Option α :=
  decode .unbounded value

def text (value : α) : String :=
  (encode value).compact

def prettyText (value : α) : String :=
  (encode value).pretty

instance : Stored Bool := ⟨Decoder.bool, .bool⟩

instance : Stored String := ⟨Decoder.string, .string⟩

instance : Stored UInt32 := ⟨Decoder.word32, fun n => .ofNat n.toNat⟩

instance : Stored UInt64 := ⟨Decoder.word64, fun n => .ofNat n.toNat⟩

instance : Stored FreeForm := ⟨Json.freeForm?, Json.written⟩

end Stored

end Volley
