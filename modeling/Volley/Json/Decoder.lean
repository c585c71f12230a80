import Volley.Json.Tree

/-!
# Decoding JSON values

A decoder takes a value of a stated shape out of a JSON tree. A record is written
as an object of named members or as an array of its fields in their order. Values
under unknown names are skipped unread.
-/

namespace Volley

/-- How many more containers may be opened; `none` sets no bound. -/
abbrev Room := Option Nat

namespace Room

/-- Values in texts open at most 127 containers. -/
def ofText : Room :=
  some 127

def unbounded : Room :=
  none

def enter? : Room → Option Room
  | none => some none
  | some 0 => none
  | some (n + 1) => some (some n)

end Room

abbrev Decoder (ν α : Type) := Room → Json ν → Option α

namespace Decoder

variable {ν α : Type}

def bool : Decoder ν Bool
  | _, .bool b => some b
  | _, _ => none

def string : Decoder ν String
  | _, .text s => s
  | _, _ => none

/-- Any number, rounded to single precision. -/
def single [Numeric ν] : Decoder ν Float32
  | _, .number n => (Numeric.value? n).map Json.Number.toSingle
  | _, _ => none

def natural [Numeric ν] (bound : Nat) : Decoder ν Nat
  | _, .number n =>
      match Numeric.value? n with
      | some (.integer k) => if 0 ≤ k ∧ k.toNat < bound then some k.toNat else none
      | _ => none
  | _, _ => none

def word32 [Numeric ν] : Decoder ν UInt32 :=
  fun room tree => (natural UInt32.size room tree).map UInt32.ofNat

def word64 [Numeric ν] : Decoder ν UInt64 :=
  fun room tree => (natural UInt64.size room tree).map UInt64.ofNat

def map {β : Type} (f : α → β) (decoder : Decoder ν α) : Decoder ν β :=
  fun room tree => (decoder room tree).map f

def optional (decoder : Decoder ν α) : Decoder ν (Option α)
  | _, .null => some none
  | room, tree => (decoder room tree).map some

def items (decoder : Decoder ν α) (room : Room) : List (Json ν) → Option (List α)
  | [] => some []
  | item :: rest => do
      let value ← decoder room item
      let values ← items decoder room rest
      return value :: values

def list (decoder : Decoder ν α) : Decoder ν (List α)
  | room, .array trees => do
      let inner ← room.enter?
      items decoder inner trees
  | _, _ => none

/-- One of several words, written as a string or as the name of an object's
only member, whose value is null. -/
def word (words : List (String × α)) : Decoder ν α
  | _, .text (some s) => words.lookup s
  | room, .object [(some s, .null)] => do
      let _ ← room.enter?
      words.lookup s
  | _, _ => none

/-- The members of an object, each under its own name, the last one of a name kept. -/
def table (decoder : Decoder ν α) : Decoder ν (List (String × α))
  | room, .object members => do
      let inner ← room.enter?
      rows inner members []
  | _, _ => none
where
  rows (room : Room) : List (Option String × Json ν) → List (String × α) →
    Option (List (String × α))
    | [], found => some found
    | (none, _) :: _, _ => none
    | (some key, tree) :: rest, found => do
        let value ← decoder room tree
        rows room rest (found.filter (fun row => row.1 ≠ key) ++ [(key, value)])

end Decoder

namespace Json

mutual

/-- The free-form value that a tree stands for; in an object the last member of a name counts. -/
def freeForm? {ν : Type} [Numeric ν] (room : Room) : Json ν → Option FreeForm
  | .null => some .null
  | .bool b => some (.bool b)
  | .number n => (Numeric.value? n).map .number
  | .text s => s.map .string
  | .array items => do
      let inner ← room.enter?
      let items ← freeItems? inner items
      return .array items
  | .object members => do
      let inner ← room.enter?
      let members ← freeMembers? inner members
      return .record (Table.ofList members).entries

def freeItems? {ν : Type} [Numeric ν] (room : Room) : List (Json ν) → Option (List FreeForm)
  | [] => some []
  | item :: rest => do
      let value ← freeForm? room item
      let values ← freeItems? room rest
      return value :: values

def freeMembers? {ν : Type} [Numeric ν] (room : Room) :
    List (Option String × Json ν) → Option (List (String × FreeForm))
  | [] => some []
  | (key, tree) :: rest => do
      let key ← key
      let value ← freeForm? room tree
      let values ← freeMembers? room rest
      return (key, value) :: values

end

end Json

/-- The fields of a record as they were written: the trees found under the fields' names, and
whether the record was written by position. -/
structure Fields (ν : Type) where
  room : Room
  positional : Bool
  found : List (String × Json ν)

namespace Fields

variable {ν α : Type}

/-- The name of the field that a member's name belongs to. A field is listed
with its own name first. -/
def owner? (schema : List (List String)) (name : String) : Option String :=
  (schema.find? fun names => names.contains name).bind List.head?

/-- Collects the members of an object; a field given twice is an error. -/
def collect? (schema : List (List String)) :
    List (Option String × Json ν) → List (String × Json ν) → Option (List (String × Json ν))
  | [], found => some found
  | (none, _) :: _, _ => none
  | (some name, tree) :: rest, found =>
      match owner? schema name with
      | none => collect? schema rest found
      | some field =>
          if (found.lookup field).isSome then none
          else collect? schema rest (found ++ [(field, tree)])

/-- The fields of a record whose fields have the given names, in their order. -/
def of? (schema : List (List String)) (room : Room) : Json ν → Option (Fields ν)
  | .object members => do
      let inner ← room.enter?
      let found ← collect? schema members []
      return { room := inner, positional := false, found }
  | .array items => do
      let inner ← room.enter?
      if schema.length < items.length then none
      else
        let found := (schema.filterMap List.head?).zip items
        return { room := inner, positional := true, found }
  | _ => none

def required (fields : Fields ν) (name : String) (decoder : Decoder ν α) : Option α :=
  match fields.found.lookup name with
  | some tree => decoder fields.room tree
  | none => none

/-- A field that takes a default value where it is missing. -/
def withDefault (fields : Fields ν) (name : String) (decoder : Decoder ν α)
    (value : α) : Option α :=
  match fields.found.lookup name with
  | some tree => decoder fields.room tree
  | none => some value

def optional (fields : Fields ν) (name : String) (decoder : Decoder ν α) : Option (Option α) :=
  fields.withDefault name decoder.optional none

end Fields

end Volley
