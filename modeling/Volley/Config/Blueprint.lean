import Volley.Config.Params

/-!
# Bullet blueprints

A blueprint lists segments, a segment lists rules, and a rule names the cue it
waits for, the conditions that must hold and the actions to take. Conditions and
actions are kept as they are written.
-/

namespace Volley

/-- What a rule waits for. A cue of any other name is kept and never given. -/
inductive Cue where
  | bulletStart
  | bulletEnd
  | bulletHit
  | other (name : String)
  deriving DecidableEq, Repr

namespace Cue

def name : Cue → String
  | .bulletStart => "bulletStart"
  | .bulletEnd => "bulletEnd"
  | .bulletHit => "bulletHit"
  | .other name => name

def ofName (name : String) : Cue :=
  if name = "bulletStart" then .bulletStart
  else if name = "bulletEnd" then .bulletEnd
  else if name = "bulletHit" then .bulletHit
  else .other name

def decode {ν : Type} : Decoder ν Cue :=
  Decoder.map ofName Decoder.string

def encode (cue : Cue) : Json Numeral :=
  .string cue.name

instance : Stored Cue := ⟨decode, encode⟩

end Cue

/-- A condition or an action as it is written: a tag, and parameters of a
shape that the tag decides. -/
structure Clause where
  tag : String
  params : FreeForm

namespace Clause

def decode {ν : Type} [Numeric ν] : Decoder ν Clause := fun room tree => do
  let fields ← Fields.of? [["type"], ["params"]] room tree
  let tag ← fields.required "type" Decoder.string
  let params ← fields.withDefault "params" Json.freeForm? .null
  return { tag, params }

def encode (clause : Clause) : Json Numeral :=
  .record [("type", .string clause.tag), ("params", clause.params.written)]

instance : Stored Clause := ⟨decode, encode⟩

end Clause

structure Rule where
  cue : Cue
  params : Option FreeForm
  conditions : Option (List Clause)
  actions : Option (List Clause)

namespace Rule

def decode {ν : Type} [Numeric ν] : Decoder ν Rule := fun room tree => do
  let fields ← Fields.of? [["eventType"], ["params"], ["conditions"], ["actions"]] room tree
  let cue ← fields.required "eventType" Cue.decode
  let params ← fields.optional "params" Json.freeForm?
  let conditions ← fields.optional "conditions" (Decoder.list Clause.decode)
  let actions ← fields.optional "actions" (Decoder.list Clause.decode)
  return { cue, params, conditions, actions }

def encode (rule : Rule) : Json Numeral :=
  .record
    ([("eventType", rule.cue.encode)] ++ Json.member? "params" Json.written rule.params ++
      Json.member? "conditions" (Json.ofList Clause.encode) rule.conditions ++
      Json.member? "actions" (Json.ofList Clause.encode) rule.actions)

instance : Stored Rule := ⟨decode, encode⟩

end Rule

/-- Rules, with the conditions and the actions of those that have none of their own. -/
structure Segment where
  id : UInt32
  name : Option String
  rules : List Rule
  conditions : Option (List Clause)
  actions : Option (List Clause)

namespace Segment

def decode {ν : Type} [Numeric ν] : Decoder ν Segment := fun room tree => do
  let fields ← Fields.of? [["id"], ["name"], ["triggers"], ["conditions"], ["actions"]] room tree
  let id ← fields.required "id" Decoder.word32
  let name ← fields.optional "name" Decoder.string
  let rules ← fields.withDefault "triggers" (Decoder.list Rule.decode) []
  let conditions ← fields.optional "conditions" (Decoder.list Clause.decode)
  let actions ← fields.optional "actions" (Decoder.list Clause.decode)
  return { id, name, rules, conditions, actions }

def encode (segment : Segment) : Json Numeral :=
  .record
    ([("id", .ofNat segment.id.toNat)] ++ Json.member? "name" Json.string segment.name ++
      [("triggers", .ofList Rule.encode segment.rules)] ++
      Json.member? "conditions" (Json.ofList Clause.encode) segment.conditions ++
      Json.member? "actions" (Json.ofList Clause.encode) segment.actions)

instance : Stored Segment := ⟨decode, encode⟩

end Segment

/-- What all bullets of one make have in common. -/
structure Blueprint where
  id : UInt32
  name : String
  description : Option String
  modelId : String
  segments : List Segment

namespace Blueprint

def decode {ν : Type} [Numeric ν] : Decoder ν Blueprint := fun room tree => do
  let fields ← Fields.of? [["id"], ["name"], ["description"], ["modelId"], ["segments"]] room tree
  let id ← fields.required "id" Decoder.word32
  let name ← fields.required "name" Decoder.string
  let description ← fields.optional "description" Decoder.string
  let modelId ← fields.required "modelId" Decoder.string
  let segments ← fields.withDefault "segments" (Decoder.list Segment.decode) []
  return { id, name, description, modelId, segments }

def encode (blueprint : Blueprint) : Json Numeral :=
  .record
    ([("id", .ofNat blueprint.id.toNat), ("name", .string blueprint.name)] ++
      Json.member? "description" Json.string blueprint.description ++
      [("modelId", .string blueprint.modelId),
        ("segments", .ofList Segment.encode blueprint.segments)])

instance : Stored Blueprint := ⟨decode, encode⟩

end Blueprint

end Volley
