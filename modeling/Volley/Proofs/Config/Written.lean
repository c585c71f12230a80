import Volley.Config.Blueprint
import Volley.Config.Level
import Volley.Proofs.Json.Records

/-!
# Configs that are written and read again
-/

namespace Volley

open Decoder

variable {room inner : Room}

/-! ## Ids and words -/

@[simp]
theorem ActorId.decode_encode (room : Room) (id : ActorId) :
    ActorId.decode room id.encode = some id := by
  simp [ActorId.decode, ActorId.encode, Decoder.map]

@[simp]
theorem ActorId.optional_encode (room : Room) (found : Option ActorId) :
    ActorId.decode.optional room (.ofOption ActorId.encode found) = some found :=
  optional_ofOption rfl (ActorId.decode_encode room) found

@[simp]
theorem ActorKind.decode_encode (room : Room) (kind : ActorKind) :
    ActorKind.decode room kind.encode = some kind := by
  cases kind <;> rfl

@[simp]
theorem ArcSampling.decode_encode (room : Room) (sampling : ArcSampling) :
    ArcSampling.decode room sampling.encode = some sampling := by
  cases sampling <;> rfl

@[simp]
theorem DamageReach.optional_encode (room : Room) (found : Option DamageReach) :
    DamageReach.decode.optional room (.ofOption DamageReach.encode found) = some found :=
  optional_ofOption rfl (fun reach => by cases reach <;> rfl) found

/-! ## Points, levels and terrains -/

namespace Vec3

def singles (v : Vec3) : List Float32 :=
  [v.x, v.y, v.z]

theorem decode_encode_eq_iff (hroom : room.Holds 1) {v : Vec3} :
    decodePoint room v.encodePoint = some v ↔ ∀ x ∈ v.singles, x.isFinite = true := by
  obtain ⟨inner, hinner, -⟩ := hroom.enter
  cases v
  rw [decodePoint, encodePoint, Fields.of?_record (by decide) hinner (.refl _)]
  simp [Fields.required, Fields.withDefault, Option.bind_eq_some_iff, List.lookup_cons, singles]

theorem optional_encode_eq_iff (hroom : room.Holds 1) {found : Option Vec3} :
    decodePoint.optional room (.ofOption encodePoint found) = some found ↔
      ∀ x ∈ found.toList.flatMap singles, x.isFinite = true := by
  rw [optional_ofOption_eq_iff rfl]
  cases found with
  | none => simp
  | some v => simp [decode_encode_eq_iff hroom]

end Vec3

namespace Placement

def singles (placement : Placement) : List Float32 :=
  placement.position.singles ++ [placement.rotation, placement.scale]

theorem decode_encode_eq_iff (hroom : room.Holds 2) {placement : Placement} :
    decode room placement.encode = some placement ↔ ∀ x ∈ placement.singles, x.isFinite = true := by
  obtain ⟨inner, hinner, hholds⟩ := hroom.enter
  cases placement
  rw [decode, encode, Fields.of?_record (by decide) hinner (.refl _)]
  simp [Fields.required, Fields.withDefault, Option.bind_eq_some_iff, List.lookup_cons, singles,
    or_imp, forall_and,
    Vec3.decode_encode_eq_iff hholds]

end Placement

namespace Level

def singles (level : Level) : List Float32 :=
  level.actors.flatMap Placement.singles

theorem decode_encode_eq_iff (hroom : room.Holds 4) {level : Level} :
    decode room level.encode = some level ↔ ∀ x ∈ level.singles, x.isFinite = true := by
  obtain ⟨inner, hinner, hholds⟩ := hroom.enter
  obtain ⟨innermost, hinnermost, hrest⟩ := hholds.enter
  have hactors : Decoder.list Placement.decode inner (.ofList Placement.encode level.actors) =
      some level.actors ↔
      ∀ x ∈ level.singles, x.isFinite = true := by
    rw [list_ofList_eq_iff hinnermost, forall₂_congr
      fun placement _ => Placement.decode_encode_eq_iff hrest, singles,
      List.forall_mem_flatMap]
  rw [← hactors]
  cases level
  rw [decode, encode, Fields.of?_record (by decide) hinner (.refl _)]
  simp [Fields.required, Fields.withDefault, Option.bind_eq_some_iff, List.lookup_cons]

end Level

namespace Terrain

def singles (terrain : Terrain) : List Float32 :=
  [terrain.width, terrain.height]

theorem decode_encode_eq_iff (hroom : room.Holds 2) {terrain : Terrain} :
    decode room terrain.encode = some terrain ↔ ∀ x ∈ terrain.singles, x.isFinite = true := by
  obtain ⟨inner, hinner, hholds⟩ := hroom.enter
  obtain ⟨innermost, hinnermost, -⟩ := hholds.enter
  have hcells : ∀ cells : List UInt32,
      Decoder.list Decoder.word32 inner (.ofList (fun cell => .ofNat cell.toNat) cells) =
        some cells := by
    intro cells
    rw [list_ofList_eq_iff hinnermost]
    exact fun cell _ => word32_ofNat innermost cell
  cases terrain
  rw [decode, encode, Fields.of?_record (by decide) hinner (.refl _)]
  simp [Fields.required, Fields.withDefault, Option.bind_eq_some_iff, List.lookup_cons,
    singles, hcells]

end Terrain

/-! ## Parameters -/

namespace Lifetime

def singles (params : Lifetime) : List Float32 :=
  [params.seconds]

theorem decode_encode_eq_iff (hroom : room.Holds 1) {params : Lifetime} :
    decode room params.encode = some params ↔ ∀ x ∈ params.singles, x.isFinite = true := by
  obtain ⟨inner, hinner, -⟩ := hroom.enter
  cases params
  rw [decode, encode, Fields.of?_record (by decide) hinner (.refl _)]
  simp [Fields.required, Option.bind_eq_some_iff, singles]

end Lifetime

namespace Proximity

def singles (params : Proximity) : List Float32 :=
  params.point.toList.flatMap Vec3.singles ++ [params.maxDistance]

theorem decode_encode_eq_iff (hroom : room.Holds 2) {params : Proximity} :
    decode room params.encode = some params ↔ ∀ x ∈ params.singles, x.isFinite = true := by
  obtain ⟨inner, hinner, hholds⟩ := hroom.enter
  rw [singles, List.forall_mem_append, ← Vec3.optional_encode_eq_iff hholds]
  cases params
  rw [decode, encode, Fields.of?_record (by decide) hinner (.refl _)]
  simp [Fields.required, Fields.optional, Fields.withDefault, Option.bind_eq_some_iff,
    List.lookup_cons]

end Proximity

namespace FlyOrder

def singles (order : FlyOrder) : List Float32 :=
  order.point.toList.flatMap Vec3.singles ++ order.maxSpeed.toList ++
    [order.speed, order.acceleration, order.arc, order.turnRate, order.collisionRadius]

theorem decode_encode_eq_iff (hroom : room.Holds 2) {order : FlyOrder} :
    decode room order.encode = some order ↔ ∀ x ∈ order.singles, x.isFinite = true := by
  obtain ⟨inner, hinner, hholds⟩ := hroom.enter
  rw [singles, List.forall_mem_append, List.forall_mem_append, ← Vec3.optional_encode_eq_iff hholds]
  cases order
  rw [decode, encode, Fields.of?_record (by decide) hinner (.refl _)]
  simp [Fields.optional, Fields.withDefault, Option.bind_eq_some_iff, List.lookup_cons]
  tauto

end FlyOrder

namespace DamageOrder

def singles (order : DamageOrder) : List Float32 :=
  order.value.toList ++ order.ratio.toList ++ order.maxDistance.toList ++ order.radius.toList

theorem decode_encode_eq_iff (hroom : room.Holds 1) {order : DamageOrder} :
    decode room order.encode = some order ↔ ∀ x ∈ order.singles, x.isFinite = true := by
  obtain ⟨inner, hinner, -⟩ := hroom.enter
  cases order
  rw [decode, encode, Fields.of?_record (by decide) hinner (.refl _)]
  simp [Fields.optional, Fields.withDefault, Option.bind_eq_some_iff, List.lookup_cons, singles,
    or_imp, forall_and]

end DamageOrder

/-! ## Custom calls and clauses -/

/-- All numbers in a free-form value read back from their numerals. -/
def FreeForm.Rereads (value : FreeForm) : Prop :=
  value.ForNumbers Json.Number.ReadsBack

theorem FreeForm.decode_written_eq_iff {tree : Json Numeral} {value : FreeForm}
    (hdecode : Json.freeForm? room tree = some value) :
    Json.freeForm? room value.written = some value ↔ FreeForm.Rereads value :=
  (Json.shaped_of_freeForm? hdecode).freeForm?_written_eq_iff

/-- A free-form field that is missing is null. -/
theorem FreeForm.withDefault_eq_iff {fields : Fields Numeral} {name : String} {value : FreeForm}
    (hvalue : fields.withDefault name Json.freeForm? .null = some value) :
    Json.freeForm? fields.room value.written = some value ↔ FreeForm.Rereads value := by
  rcases Fields.exists_of_withDefault hvalue with rfl | ⟨tree, htree⟩
  · exact (Json.Shaped.null fields.room).freeForm?_written_eq_iff
  · exact FreeForm.decode_written_eq_iff htree

/-- A free-form value that is written is null only if it is null. -/
theorem FreeForm.written_ne_null {tree : Json Numeral} {value : FreeForm} (htree : tree ≠ .null)
    (hdecode : Json.freeForm? room tree = some value) : value.written ≠ .null := by
  cases Json.shaped_of_freeForm? hdecode with
  | null =>
      cases tree with
      | null => exact absurd rfl htree
      | number n =>
          obtain ⟨number, -, hnumber⟩ := Option.map_eq_some_iff.mp hdecode
          cases hnumber
      | text s =>
          obtain ⟨string, -, hstring⟩ := Option.map_eq_some_iff.mp hdecode
          cases hstring
      | bool b => cases hdecode
      | array items => simp [Json.freeForm?, Option.bind_eq_some_iff] at hdecode
      | object members => simp [Json.freeForm?, Option.bind_eq_some_iff, Json.record] at hdecode
  | _ => simp [Json.written, Json.string, Json.record]

theorem FreeForm.optional_eq_iff {fields : Fields Numeral} {name : String} {found : Option FreeForm}
    (hfound : fields.optional name Json.freeForm? = some found) :
    (∀ value ∈ found, Json.freeForm? fields.room value.written = some value) ↔
      ∀ value ∈ found.toList, FreeForm.Rereads value := by
  simp only [Option.mem_toList]
  refine forall₂_congr fun value hvalue => ?_
  obtain ⟨tree, htree, -⟩ := Fields.exists_of_optional hfound hvalue
  exact FreeForm.decode_written_eq_iff htree

namespace CustomCall

theorem decode_encode_eq_iff {tree : Json Numeral} {call : CustomCall}
    (hdecode : decode room tree = some call) :
    decode room call.encode = some call ↔ FreeForm.Rereads call.params := by
  simp only [decode, Option.bind_eq_bind, Option.bind_eq_some_iff, Option.pure_def,
    Option.some.injEq] at hdecode
  obtain ⟨fields, hfields, name, -, params, hparams, rfl⟩ := hdecode
  rw [decode, encode, Fields.of?_record (by decide) (Fields.enter?_of_of? hfields) (.refl _)]
  simp [Fields.required, Fields.withDefault, Option.bind_eq_some_iff, List.lookup_cons,
    FreeForm.withDefault_eq_iff hparams]

end CustomCall

namespace Clause

theorem decode_encode_eq_iff {tree : Json Numeral} {clause : Clause}
    (hdecode : decode room tree = some clause) :
    decode room clause.encode = some clause ↔ FreeForm.Rereads clause.params := by
  simp only [decode, Option.bind_eq_bind, Option.bind_eq_some_iff, Option.pure_def,
    Option.some.injEq] at hdecode
  obtain ⟨fields, hfields, tag, -, params, hparams, rfl⟩ := hdecode
  rw [decode, encode, Fields.of?_record (by decide) (Fields.enter?_of_of? hfields) (.refl _)]
  simp [Fields.required, Fields.withDefault, Option.bind_eq_some_iff, List.lookup_cons,
    FreeForm.withDefault_eq_iff hparams]

/-- The parameters of clauses that may be missing altogether. -/
def paramsOf (clauses : Option (List Clause)) : List FreeForm :=
  (clauses.getD []).map params

theorem optional_eq_iff {fields : Fields Numeral} {name : String} {clauses : Option (List Clause)}
    (hclauses : fields.optional name (Decoder.list decode) = some clauses) :
    (∀ found ∈ clauses, Decoder.list decode fields.room (.ofList encode found) = some found) ↔
      ∀ value ∈ paramsOf clauses, FreeForm.Rereads value := by
  cases clauses with
  | none => exact iff_of_true nofun (List.forall_mem_nil _)
  | some found =>
      obtain ⟨tree, htree, -⟩ := Fields.exists_of_optional hclauses rfl
      obtain ⟨inner, hinner, hitems⟩ := Decoder.exists_of_list htree
      have hfound : Decoder.list decode fields.room (.ofList encode found) = some found ↔
          ∀ clause ∈ found, FreeForm.Rereads clause.params := by
        rw [list_ofList_eq_iff hinner]
        refine forall₂_congr fun clause hclause => ?_
        obtain ⟨item, hitem⟩ := hitems clause hclause
        exact decode_encode_eq_iff hitem
      simp [paramsOf, hfound]

end Clause

/-! ## Blueprints -/

@[simp]
theorem Cue.decode_ofName (room : Room) (name : String) :
    Cue.decode room (ofName name).encode = some (ofName name) := by
  have hname : ofName (ofName name).name = ofName name := by
    by_cases hstart : name = "bulletStart"
    · subst hstart; rfl
    by_cases hend : name = "bulletEnd"
    · subst hend; rfl
    by_cases hhit : name = "bulletHit"
    · subst hhit; rfl
    have hother : ofName name = .other name := by
      rw [ofName, if_neg hstart, if_neg hend, if_neg hhit]
    rw [hother, Cue.name, hother]
  exact congrArg some hname

theorem Cue.decode_encode {tree : Json Numeral} {cue : Cue}
    (hdecode : Cue.decode room tree = some cue) (other : Room) :
    Cue.decode other cue.encode = some cue := by
  obtain ⟨name, -, rfl⟩ := Decoder.exists_of_map hdecode
  exact Cue.decode_ofName other name

namespace Rule

def freeForms (rule : Rule) : List FreeForm :=
  rule.params.toList ++ Clause.paramsOf rule.conditions ++ Clause.paramsOf rule.actions

theorem decode_encode_eq_iff {tree : Json Numeral} {rule : Rule}
    (hdecode : decode room tree = some rule) :
    decode room rule.encode = some rule ↔ ∀ value ∈ rule.freeForms, FreeForm.Rereads value := by
  simp only [decode, Option.bind_eq_bind, Option.bind_eq_some_iff, Option.pure_def,
    Option.some.injEq] at hdecode
  obtain ⟨fields, hfields, cue, hcue, params, hparams, conditions, hconditions, actions, hactions,
      rfl⟩ := hdecode
  obtain ⟨cueTree, hcueTree⟩ := Fields.exists_of_required hcue
  rw [freeForms, List.forall_mem_append, List.forall_mem_append,
    ← Clause.optional_eq_iff hconditions,
    ← Clause.optional_eq_iff hactions, ← FreeForm.optional_eq_iff hparams]
  let written : Fields Numeral :=
    { room := fields.room, positional := false
      found := [("eventType", cue.encode)] ++ Json.member? "params" Json.written params ++
        Json.member? "conditions" (Json.ofList Clause.encode) conditions ++
        Json.member? "actions" (Json.ofList Clause.encode) actions }
  have hnames : (written.found.map Prod.fst).Sublist (["eventType"] ++ ["params"] ++
      ["conditions"] ++ ["actions"]) := by
    rw [List.map_append, List.map_append, List.map_append]
    exact (((List.Sublist.refl _).append (Json.names_member? _ _ _)).append
      (Json.names_member? _ _ _)).append
      (Json.names_member? _ _ _)
  have hwritten : Fields.of? [["eventType"], ["params"], ["conditions"], ["actions"]] room
      (encode ⟨cue, params, conditions, actions⟩) = some written :=
    Fields.of?_record (by decide) (Fields.enter?_of_of? hfields) hnames
  have hname : written.required "eventType" Cue.decode = some cue := Cue.decode_encode hcueTree _
  have hlookup : written.found.lookup "params" = params.map Json.written ∧
      written.found.lookup "conditions" = conditions.map (Json.ofList Clause.encode) ∧
      written.found.lookup "actions" = actions.map (Json.ofList Clause.encode) := by
    simp [written, List.lookup_cons, List.lookup_append]
  have hnull : ∀ value ∈ params, value.written ≠ .null := by
    intro value hvalue
    obtain ⟨tree, htree, hne⟩ := Fields.exists_of_optional hparams hvalue
    exact FreeForm.written_ne_null hne htree
  have hlist : ∀ (found : Option (List Clause)), ∀ clauses ∈ found,
      Json.ofList Clause.encode clauses ≠ .null :=
    fun _ clauses _ => Json.ofList_ne_null Clause.encode clauses
  rw [← Fields.optional_eq_iff hlookup.1 hnull, ← Fields.optional_eq_iff hlookup.2.1 (hlist _),
    ← Fields.optional_eq_iff hlookup.2.2 (hlist _), decode, hwritten]
  simp [Option.bind_eq_some_iff, hname, and_assoc]

end Rule

namespace Segment

def freeForms (segment : Segment) : List FreeForm :=
  segment.rules.flatMap Rule.freeForms ++ Clause.paramsOf segment.conditions ++
    Clause.paramsOf segment.actions

theorem decode_encode_eq_iff (hroom : room.Holds 2) {tree : Json Numeral} {segment : Segment}
    (hdecode : decode room tree = some segment) :
    decode room segment.encode = some segment ↔
      ∀ value ∈ segment.freeForms, FreeForm.Rereads value := by
  simp only [decode, Option.bind_eq_bind, Option.bind_eq_some_iff, Option.pure_def,
    Option.some.injEq] at hdecode
  obtain ⟨fields, hfields, id, -, name, -, rules, hrules, conditions, hconditions, actions,
      hactions, rfl⟩ := hdecode
  obtain ⟨inner, hinner, hholds⟩ := hroom.enter
  obtain rfl := Option.some.inj (hinner.symm.trans (Fields.enter?_of_of? hfields))
  obtain ⟨innermost, hinnermost, -⟩ := hholds.enter
  have hall : Decoder.list Rule.decode fields.room (.ofList Rule.encode rules) = some rules ↔
      ∀ value ∈ rules.flatMap Rule.freeForms, FreeForm.Rereads value := by
    rw [list_ofList_eq_iff hinnermost, List.forall_mem_flatMap]
    refine forall₂_congr fun rule hrule => ?_
    obtain ⟨item, hitem⟩ := Fields.exists_of_list hrules hinnermost rule hrule
    exact Rule.decode_encode_eq_iff hitem
  rw [freeForms, List.forall_mem_append, List.forall_mem_append,
    ← Clause.optional_eq_iff hconditions,
    ← Clause.optional_eq_iff hactions, ← hall]
  let written : Fields Numeral :=
    { room := fields.room, positional := false
      found := [("id", .ofNat id.toNat)] ++ Json.member? "name" Json.string name ++
        [("triggers", .ofList Rule.encode rules)] ++
        Json.member? "conditions" (Json.ofList Clause.encode) conditions ++
        Json.member? "actions" (Json.ofList Clause.encode) actions }
  have hnames : (written.found.map Prod.fst).Sublist
      (["id"] ++ ["name"] ++ ["triggers"] ++ ["conditions"] ++ ["actions"]) := by
    rw [List.map_append, List.map_append, List.map_append, List.map_append]
    exact ((((List.Sublist.refl _).append (Json.names_member? _ _ _)).append (.refl _)).append
      (Json.names_member? _ _ _)).append (Json.names_member? _ _ _)
  have hwritten : Fields.of? [["id"], ["name"], ["triggers"], ["conditions"], ["actions"]] room
      (encode ⟨id, name, rules, conditions, actions⟩) = some written :=
    Fields.of?_record (by decide) hinner hnames
  have hid : written.required "id" Decoder.word32 = some id := word32_ofNat _ id
  have hlookup : written.found.lookup "name" = name.map Json.string ∧
      written.found.lookup "triggers" = some (.ofList Rule.encode rules) ∧
      written.found.lookup "conditions" = conditions.map (Json.ofList Clause.encode) ∧
      written.found.lookup "actions" = actions.map (Json.ofList Clause.encode) := by
    simp [written, List.lookup_cons, List.lookup_append]
  have hname : written.optional "name" Decoder.string = some name :=
    (Fields.optional_eq_iff hlookup.1 fun value _ => Json.string_ne_null value).mpr fun _ _ => rfl
  have htriggers : written.withDefault "triggers" (Decoder.list Rule.decode) [] =
      Decoder.list Rule.decode fields.room (.ofList Rule.encode rules) := by
    rw [Fields.withDefault, hlookup.2.1]
  have hlist : ∀ (found : Option (List Clause)), ∀ clauses ∈ found,
      Json.ofList Clause.encode clauses ≠ .null :=
    fun _ clauses _ => Json.ofList_ne_null Clause.encode clauses
  rw [← Fields.optional_eq_iff hlookup.2.2.1 (hlist _),
    ← Fields.optional_eq_iff hlookup.2.2.2 (hlist _), decode, hwritten]
  simp [Option.bind_eq_some_iff, hid, hname, htriggers, and_assoc]

end Segment

namespace Blueprint

def freeForms (blueprint : Blueprint) : List FreeForm :=
  blueprint.segments.flatMap Segment.freeForms

theorem decode_encode_eq_iff (hroom : room.Holds 4) {tree : Json Numeral} {blueprint : Blueprint}
    (hdecode : decode room tree = some blueprint) :
    decode room blueprint.encode = some blueprint ↔
      ∀ value ∈ blueprint.freeForms, FreeForm.Rereads value := by
  simp only [decode, Option.bind_eq_bind, Option.bind_eq_some_iff, Option.pure_def,
    Option.some.injEq] at hdecode
  obtain ⟨fields, hfields, id, -, name, -, description, -, modelId, -, segments, hsegments,
      rfl⟩ := hdecode
  obtain ⟨inner, hinner, hholds⟩ := hroom.enter
  obtain rfl := Option.some.inj (hinner.symm.trans (Fields.enter?_of_of? hfields))
  obtain ⟨innermost, hinnermost, hrest⟩ := hholds.enter
  have hall : Decoder.list Segment.decode fields.room (.ofList Segment.encode segments) =
      some segments ↔
      ∀ value ∈ segments.flatMap Segment.freeForms, FreeForm.Rereads value := by
    rw [list_ofList_eq_iff hinnermost, List.forall_mem_flatMap]
    refine forall₂_congr fun segment hsegment => ?_
    obtain ⟨item, hitem⟩ := Fields.exists_of_list hsegments hinnermost segment hsegment
    exact Segment.decode_encode_eq_iff hrest hitem
  rw [freeForms, ← hall]
  let written : Fields Numeral :=
    { room := fields.room, positional := false
      found := [("id", .ofNat id.toNat), ("name", .string name)] ++
        Json.member? "description" Json.string description ++
        [("modelId", .string modelId), ("segments", .ofList Segment.encode segments)] }
  have hnames : (written.found.map Prod.fst).Sublist (["id", "name"] ++ ["description"] ++
      ["modelId", "segments"]) := by
    rw [List.map_append, List.map_append]
    exact ((List.Sublist.refl _).append (Json.names_member? _ _ _)).append (.refl _)
  have hwritten : Fields.of? [["id"], ["name"], ["description"], ["modelId"], ["segments"]] room
      (encode ⟨id, name, description, modelId, segments⟩) = some written :=
    Fields.of?_record (by decide) hinner hnames
  have hid : written.required "id" Decoder.word32 = some id := word32_ofNat _ id
  have hlookup : written.found.lookup "description" = description.map Json.string ∧
      written.found.lookup "modelId" = some (.string modelId) ∧
      written.found.lookup "segments" = some (.ofList Segment.encode segments) := by
    simp [written, List.lookup_cons, List.lookup_append]
  have hdescription : written.optional "description" Decoder.string = some description :=
    (Fields.optional_eq_iff hlookup.1 fun value _ => Json.string_ne_null value).mpr fun _ _ => rfl
  have hname : written.required "name" Decoder.string = some name := rfl
  have hmodel : written.required "modelId" Decoder.string = some modelId := by
    rw [Fields.required, hlookup.2.1]
    rfl
  have hlist : written.withDefault "segments" (Decoder.list Segment.decode) [] =
      Decoder.list Segment.decode fields.room (.ofList Segment.encode segments) := by
    rw [Fields.withDefault, hlookup.2.2]
  rw [decode, hwritten]
  simp [Option.bind_eq_some_iff, hid, hname, hdescription, hmodel, hlist]

end Blueprint

end Volley
