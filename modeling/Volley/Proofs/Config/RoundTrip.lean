import Volley.Proofs.Config.Written
import Volley.Proofs.Json.Spelling

/-!
# Texts of configs
-/

namespace Volley

open Json (Spellable spellable_ofOption spellable_ofList spellable_member?)

@[simp]
theorem ActorId.spellable_encode (id : ActorId) : Spellable id.encode :=
  Json.spellable_ofNat _

@[simp]
theorem Vec3.spellable_encodePoint (v : Vec3) : Spellable v.encodePoint := by
  simp [encodePoint]

@[simp]
theorem Placement.spellable_encode (placement : Placement) : Spellable placement.encode := by
  simp [encode, ActorKind.encode]

theorem Level.spellable_encode (level : Level) : Spellable level.encode := by
  simp [encode, spellable_ofList]

theorem Terrain.spellable_encode (terrain : Terrain) : Spellable terrain.encode := by
  simp [encode, spellable_ofList]

theorem Lifetime.spellable_encode (params : Lifetime) : Spellable params.encode := by
  simp [encode]

theorem Proximity.spellable_encode (params : Proximity) : Spellable params.encode := by
  simp [encode, spellable_ofOption]

theorem CustomCall.spellable_encode (call : CustomCall) : Spellable call.encode := by
  simp [encode]

theorem FlyOrder.spellable_encode (order : FlyOrder) : Spellable order.encode := by
  simp [encode, spellable_ofOption, ArcSampling.encode]

theorem DamageOrder.spellable_encode (order : DamageOrder) : Spellable order.encode := by
  have hreach : ∀ reach : DamageReach, Spellable reach.encode :=
    fun reach => Json.spellable_string reach.name
  simp [encode, spellable_ofOption, hreach]

@[simp]
theorem Clause.spellable_encode (clause : Clause) : Spellable clause.encode := by
  simp [encode]

theorem Rule.spellable_encode (rule : Rule) : Spellable rule.encode := by
  rw [encode, Json.spellable_record_iff, List.forall_mem_append, List.forall_mem_append,
    List.forall_mem_append]
  refine ⟨⟨⟨by simp [Cue.encode], ?_⟩, ?_⟩, ?_⟩
  · exact spellable_member? Json.spellable_written _ _
  · exact spellable_member? (spellable_ofList Clause.spellable_encode) _ _
  · exact spellable_member? (spellable_ofList Clause.spellable_encode) _ _

theorem Segment.spellable_encode (segment : Segment) : Spellable segment.encode := by
  rw [encode, Json.spellable_record_iff, List.forall_mem_append, List.forall_mem_append,
    List.forall_mem_append,
    List.forall_mem_append]
  refine ⟨⟨⟨⟨by simp, ?_⟩, ?_⟩, ?_⟩, ?_⟩
  · exact spellable_member? Json.spellable_string _ _
  · exact List.forall_mem_singleton.mpr (spellable_ofList Rule.spellable_encode _)
  · exact spellable_member? (spellable_ofList Clause.spellable_encode) _ _
  · exact spellable_member? (spellable_ofList Clause.spellable_encode) _ _

theorem Blueprint.spellable_encode (blueprint : Blueprint) : Spellable blueprint.encode := by
  rw [encode, Json.spellable_record_iff, List.forall_mem_append, List.forall_mem_append]
  refine ⟨⟨by simp, ?_⟩, ?_⟩
  · exact spellable_member? Json.spellable_string _ _
  · simp [spellable_ofList Segment.spellable_encode]

/-! ## All kinds of configs -/

/-- The kinds of values that config texts hold. -/
inductive Form where
  | blueprint
  | level
  | terrain
  | lifetime
  | proximity
  | customCall
  | flyOrder
  | damageOrder

namespace Form

abbrev Value : Form → Type
  | .blueprint => Blueprint
  | .level => Level
  | .terrain => Terrain
  | .lifetime => Lifetime
  | .proximity => Proximity
  | .customCall => CustomCall
  | .flyOrder => FlyOrder
  | .damageOrder => DamageOrder

instance stored : (form : Form) → Stored form.Value
  | .blueprint => inferInstanceAs (Stored Blueprint)
  | .level => inferInstanceAs (Stored Level)
  | .terrain => inferInstanceAs (Stored Terrain)
  | .lifetime => inferInstanceAs (Stored Lifetime)
  | .proximity => inferInstanceAs (Stored Proximity)
  | .customCall => inferInstanceAs (Stored CustomCall)
  | .flyOrder => inferInstanceAs (Stored FlyOrder)
  | .damageOrder => inferInstanceAs (Stored DamageOrder)

/-- All single-precision numbers in a value. -/
def singles : (form : Form) → form.Value → List Float32
  | .level => Level.singles
  | .terrain => Terrain.singles
  | .lifetime => Lifetime.singles
  | .proximity => Proximity.singles
  | .flyOrder => FlyOrder.singles
  | .damageOrder => DamageOrder.singles
  | .blueprint => fun _ => []
  | .customCall => fun _ => []

/-- All free-form values in a value. -/
def freeForms : (form : Form) → form.Value → List FreeForm
  | .blueprint => Blueprint.freeForms
  | .customCall => fun call => [call.params]
  | _ => fun _ => []

theorem spellable_encode : (form : Form) → (value : form.Value) → Spellable (Stored.encode value)
  | .blueprint => Blueprint.spellable_encode
  | .level => Level.spellable_encode
  | .terrain => Terrain.spellable_encode
  | .lifetime => Lifetime.spellable_encode
  | .proximity => Proximity.spellable_encode
  | .customCall => CustomCall.spellable_encode
  | .flyOrder => FlyOrder.spellable_encode
  | .damageOrder => DamageOrder.spellable_encode

/-- A value that was decoded is decoded again from what its encoder makes of
it exactly if its numbers are. -/
theorem decode_encode_eq_iff (form : Form) {tree : Json Numeral} {value : form.Value}
    (hdecode : Stored.decode .ofText tree = some value) :
    Stored.decode .ofText (Stored.encode value) = some value ↔
      (∀ x ∈ form.singles value, x.isFinite = true) ∧
      ∀ found ∈ form.freeForms value, FreeForm.Rereads found := by
  have hroom : ∀ n ≤ 127, Room.Holds n .ofText := fun n hn => hn
  have hsingles : ∀ x ∈ ([] : List Float32), x.isFinite = true := List.forall_mem_nil _
  have hfree : ∀ found ∈ ([] : List FreeForm), FreeForm.Rereads found := List.forall_mem_nil _
  cases form with
  | blueprint =>
      exact (Blueprint.decode_encode_eq_iff (hroom 4 (by decide)) hdecode).trans
        (and_iff_right hsingles).symm
  | level =>
      exact (Level.decode_encode_eq_iff (hroom 4 (by decide))).trans (and_iff_left hfree).symm
  | terrain =>
      exact (Terrain.decode_encode_eq_iff (hroom 2 (by decide))).trans (and_iff_left hfree).symm
  | lifetime =>
      exact (Lifetime.decode_encode_eq_iff (hroom 1 (by decide))).trans (and_iff_left hfree).symm
  | proximity =>
      exact (Proximity.decode_encode_eq_iff (hroom 2 (by decide))).trans (and_iff_left hfree).symm
  | customCall =>
      exact (CustomCall.decode_encode_eq_iff hdecode).trans
        (List.forall_mem_singleton.symm.trans (and_iff_right hsingles).symm)
  | flyOrder =>
      exact (FlyOrder.decode_encode_eq_iff (hroom 2 (by decide))).trans (and_iff_left hfree).symm
  | damageOrder =>
      exact (DamageOrder.decode_encode_eq_iff (hroom 1 (by decide))).trans (and_iff_left hfree).symm

/-- A config that was read from a text is read again from its own text exactly
if its numbers are. -/
theorem ofText?_text_eq_iff (form : Form) {text : String} {value : form.Value}
    (hread : Stored.ofText? text = some value) :
    Stored.ofText? (Stored.text value) = some value ↔
      (∀ x ∈ form.singles value, x.isFinite = true) ∧
      ∀ found ∈ form.freeForms value, FreeForm.Rereads found := by
  obtain ⟨tree, -, hdecode⟩ := Option.bind_eq_some_iff.mp hread
  rw [Stored.ofText?_text (form.spellable_encode value)]
  exact form.decode_encode_eq_iff hdecode

/-- A flight order under the other name of its unit, with an unknown field and all other fields left
out, is read again from its own text. -/
theorem short_flyOrder_text :
    ∃ order : FlyOrder,
      Stored.ofText? "\x7b\"targetActorNo\": 7, \"speed\": 0.1, \"colour\": [1]\x7d" = some order ∧
        order.unit = some ⟨7⟩ ∧ Stored.ofText? (Stored.text order) = some order := by
  let order : FlyOrder := { FlyOrder.standard with unit := some ⟨7⟩, speed := 0.1 }
  have hread : Stored.ofText? "\x7b\"targetActorNo\": 7, \"speed\": 0.1, \"colour\": [1]\x7d" =
      some order := by
    decide +kernel
  have hsingles : ∀ x ∈ order.singles, x.isFinite = true := by
    decide +kernel
  exact ⟨order, hread, rfl,
    (ofText?_text_eq_iff .flyOrder hread).mpr ⟨hsingles, List.forall_mem_nil _⟩⟩

/-- A lifetime beyond single precision is read as infinite and written as
null, which is no lifetime. -/
theorem not_ofText?_text :
    ¬ ∀ (form : Form) (text : String) (value : form.Value),
      Stored.ofText? text = some value → Stored.ofText? (Stored.text value) = some value := by
  intro hagain
  have hsome : (Stored.ofText? "\x7b\"lifetimeSec\": 1e39\x7d" : Option Lifetime).isSome =
      true := by decide +kernel
  have hlost : (Stored.ofText? "\x7b\"lifetimeSec\": 1e39\x7d").bind
      (fun params : Lifetime => Stored.ofText? (Stored.text params)) =
        (none : Option Lifetime) := by
    decide +kernel
  obtain ⟨params, hread⟩ := Option.isSome_iff_exists.mp hsome
  rw [hread, Option.bind_some] at hlost
  exact Option.some_ne_none params ((hagain .lifetime _ params hread).symm.trans hlost)

end Form

end Volley
