import Volley.Json.Encoder
import Volley.Proofs.Json.FreeForm
import Volley.Proofs.Json.Singles

/-!
# Records and the values in them

The fields of a record that is written are found under their own names. A value that is written is
decoded again if the values in it are.
-/

namespace Volley

namespace Room

/-- So many containers may be opened, one in the other. -/
def Holds (n : Nat) : Room → Prop
  | none => True
  | some k => n ≤ k

theorem Holds.enter {n : Nat} {room : Room} (hroom : room.Holds (n + 1)) :
    ∃ inner, room.enter? = some inner ∧ inner.Holds n := by
  rcases room with _ | _ | k
  · exact ⟨none, rfl, trivial⟩
  · exact absurd hroom (Nat.not_succ_le_zero n)
  · exact ⟨some k, rfl, Nat.le_of_succ_le_succ hroom⟩

end Room

variable {α : Type}

namespace Fields

variable {ν : Type} {schema : List (List String)} {room inner : Room}

theorem collect?_named {members : List (String × Json ν)}
    (hnames : ∀ member ∈ members, owner? schema member.1 = some member.1)
    (hnodup : (members.map Prod.fst).Nodup) {found : List (String × Json ν)}
    (hfresh : ∀ member ∈ members, found.lookup member.1 = none) :
    collect? schema (members.map fun member => (some member.1, member.2)) found =
      some (found ++ members) := by
  induction members generalizing found with
  | nil => rw [List.append_nil]; rfl
  | cons member rest ih =>
      obtain ⟨hmember, hrest⟩ := List.forall_mem_cons.mp hnames
      obtain ⟨hfresh_member, hfresh_rest⟩ := List.forall_mem_cons.mp hfresh
      obtain ⟨hnew, hnodup_rest⟩ := List.nodup_cons.mp hnodup
      have hlonger : ∀ later ∈ rest, (found ++ [(member.1, member.2)]).lookup later.1 = none := by
        intro later hlater
        have hne : (later.1 == member.1) = false := by
          rw [beq_eq_false_iff_ne]
          intro heq
          exact hnew (heq ▸ List.mem_map_of_mem hlater)
        rw [List.lookup_append, hfresh_rest later hlater, List.lookup_cons, hne]
        rfl
      rw [List.map_cons, collect?, hmember]
      dsimp only
      rw [hfresh_member, Option.isSome_none, if_neg Bool.false_ne_true,
        ih hrest hnodup_rest hlonger, List.append_assoc,
        List.singleton_append]

/-- The fields have different names, and none of the other names of a field is
the name of another one. -/
def Plain (schema : List (List String)) : Prop :=
  (∀ name ∈ schema.filterMap List.head?, owner? schema name = some name) ∧
    (schema.filterMap List.head?).Nodup

instance (schema : List (List String)) : Decidable (Plain schema) :=
  inferInstanceAs (Decidable (_ ∧ _))

/-- The members of a record are its fields if they stand under the names of
the schema in their order. -/
theorem of?_record (hschema : Plain schema) (hroom : room.enter? = some inner)
    {members : List (String × Json ν)}
    (hnames : (members.map Prod.fst).Sublist (schema.filterMap List.head?)) :
    of? schema room (.record members) =
      some { room := inner, positional := false, found := members } := by
  have howner : ∀ member ∈ members, owner? schema member.1 = some member.1 := fun member hmember =>
    hschema.1 member.1 (hnames.subset (List.mem_map_of_mem hmember))
  rw [Json.record, of?, hroom]
  simp only [Option.bind_eq_bind, Option.bind_some]
  rw [collect?_named howner (hschema.2.sublist hnames) fun _ _ => rfl]
  rfl

theorem enter?_of_of? {tree : Json ν} {fields : Fields ν}
    (hfields : of? schema room tree = some fields) :
    room.enter? = some fields.room := by
  cases tree with
  | object members =>
      simp only [of?, Option.bind_eq_bind, Option.bind_eq_some_iff] at hfields
      obtain ⟨inner, hroom, found, -, hfields⟩ := hfields
      obtain rfl := Option.some.inj hfields
      exact hroom
  | array items =>
      simp only [of?, Option.bind_eq_bind, Option.bind_eq_some_iff] at hfields
      obtain ⟨inner, hroom, hfields⟩ := hfields
      split at hfields
      · cases hfields
      · obtain rfl := Option.some.inj hfields
        exact hroom
  | _ => cases hfields

variable {fields : Fields ν} {name : String} {decoder : Decoder ν α} {value : α}

theorem exists_of_required (hvalue : fields.required name decoder = some value) :
    ∃ tree, decoder fields.room tree = some value := by
  rw [required] at hvalue
  split at hvalue
  · exact ⟨_, hvalue⟩
  · cases hvalue

theorem exists_of_withDefault {standard : α}
    (hvalue : fields.withDefault name decoder standard = some value) :
    value = standard ∨ ∃ tree, decoder fields.room tree = some value := by
  rw [withDefault] at hvalue
  split at hvalue
  · exact .inr ⟨_, hvalue⟩
  · exact .inl (Option.some.inj hvalue).symm

end Fields

/-! ## Optional values and lists -/

namespace Decoder

variable {ν : Type} {decoder : Decoder ν α} {room inner : Room}

/-- A missing value is decoded as such, and one that is present is decoded where it is not null. -/
theorem exists_of_optional {tree : Json ν} {found : Option α}
    (hfound : decoder.optional room tree = some found) {value : α} (hvalue : value ∈ found) :
    decoder room tree = some value ∧ tree ≠ .null := by
  obtain rfl := Option.mem_def.mp hvalue
  cases tree with
  | null => cases hfound
  | _ =>
      obtain ⟨other, hother, hsame⟩ := Option.map_eq_some_iff.mp hfound
      exact ⟨hother.trans hsame, nofun⟩

theorem optional_of_ne_null {tree : Json ν} (htree : tree ≠ .null) :
    decoder.optional room tree = (decoder room tree).map some := by
  cases tree with
  | null => exact absurd rfl htree
  | _ => rfl

theorem exists_of_items {trees : List (Json ν)} {values : List α}
    (hvalues : decoder.items inner trees = some values) {value : α} (hvalue : value ∈ values) :
    ∃ tree, decoder inner tree = some value := by
  induction trees generalizing values with
  | nil =>
      cases hvalues
      cases hvalue
  | cons tree rest ih =>
      simp only [items, Option.bind_eq_bind, Option.bind_eq_some_iff, Option.pure_def,
        Option.some.injEq] at hvalues
      obtain ⟨first, hfirst, others, hothers, rfl⟩ := hvalues
      rcases List.mem_cons.mp hvalue with rfl | hlater
      · exact ⟨tree, hfirst⟩
      · exact ih hothers hlater

theorem exists_of_list {tree : Json ν} {values : List α}
    (hvalues : decoder.list room tree = some values) :
    ∃ inner, room.enter? = some inner ∧
      ∀ value ∈ values, ∃ item, decoder inner item = some value := by
  cases tree with
  | array trees =>
      simp only [list, Option.bind_eq_bind, Option.bind_eq_some_iff] at hvalues
      obtain ⟨inner, hroom, hvalues⟩ := hvalues
      exact ⟨inner, hroom, fun value hvalue => exists_of_items hvalues hvalue⟩
  | _ => cases hvalues

end Decoder

namespace Decoder

variable {decoder : Decoder Numeral α} {encode : α → Json Numeral} {room inner : Room}

theorem optional_ofOption_eq_iff (hnull : decoder room .null = none) {found : Option α} :
    decoder.optional room (.ofOption encode found) = some found ↔
      ∀ value ∈ found, decoder room (encode value) = some value := by
  cases found with
  | none => exact iff_of_true rfl nofun
  | some value =>
      have honly : (∀ other ∈ some value, decoder room (encode other) = some other) ↔
          decoder room (encode value) = some value := by simp
      rw [Json.ofOption, honly]
      by_cases hencode : encode value = .null
      · rw [hencode, hnull]
        exact iff_of_false nofun nofun
      · rw [optional_of_ne_null hencode, Option.map_eq_some_iff]
        simp

theorem optional_ofOption (hnull : decoder room .null = none)
    (hencode : ∀ value, decoder room (encode value) = some value) (found : Option α) :
    decoder.optional room (.ofOption encode found) = some found :=
  (optional_ofOption_eq_iff hnull).mpr fun value _ => hencode value

theorem items_map_eq_iff {values : List α} :
    decoder.items inner (values.map encode) = some values ↔
      ∀ value ∈ values, decoder inner (encode value) = some value := by
  induction values with
  | nil => exact iff_of_true rfl (List.forall_mem_nil _)
  | cons value rest ih =>
      rw [List.forall_mem_cons, ← ih]
      simp only [List.map_cons, items, Option.bind_eq_bind, Option.bind_eq_some_iff,
        Option.pure_def, Option.some.injEq,
        List.cons.injEq]
      constructor
      · rintro ⟨_, hvalue, _, hrest, rfl, rfl⟩
        exact ⟨hvalue, hrest⟩
      · rintro ⟨hvalue, hrest⟩
        exact ⟨value, hvalue, rest, hrest, rfl, rfl⟩

theorem list_ofList_eq_iff (hroom : room.enter? = some inner) {values : List α} :
    decoder.list room (.ofList encode values) = some values ↔
      ∀ value ∈ values, decoder inner (encode value) = some value := by
  rw [← items_map_eq_iff, Json.ofList]
  simp only [list, hroom, Option.bind_eq_bind, Option.bind_some]

@[simp]
theorem string_string (room : Room) (s : String) :
    string room (Json.string s : Json Numeral) = some s := rfl

@[simp]
theorem bool_bool (room : Room) (b : Bool) : bool room (Json.bool b : Json Numeral) = some b := rfl

theorem natural_ofNat {bound n : Nat} (hbound : bound ≤ UInt64.size) (hn : n < bound)
    (room : Room) :
    natural bound room (Json.ofNat n) = some n := by
  have hread : Json.Number.ofNumeral? (.ofInt n) = some (.integer n) :=
    Json.Number.ofNumeral?_ofInt ⟨by omega, by omega⟩
  have hrange : (0 : Int) ≤ n ∧ (n : Int).toNat < bound := ⟨by omega, by omega⟩
  change natural bound room (Json.number (Numeral.ofInt n)) = some n
  rw [natural]
  simp only [Numeric.value?, hread]
  rw [if_pos hrange, Int.toNat_natCast]

@[simp]
theorem word32_ofNat (room : Room) (n : UInt32) : word32 room (Json.ofNat n.toNat) = some n := by
  rw [word32, natural_ofNat (by decide) n.toNat_lt]
  simp

@[simp]
theorem word64_ofNat (room : Room) (n : UInt64) : word64 room (Json.ofNat n.toNat) = some n := by
  rw [word64, natural_ofNat (Nat.le_refl _) n.toNat_lt]
  simp

@[simp]
theorem optional_string (room : Room) (found : Option String) :
    string.optional room (.ofOption Json.string found : Json Numeral) = some found :=
  optional_ofOption rfl (string_string room) found

@[simp]
theorem optional_single_eq_iff (room : Room) (found : Option Float32) :
    single.optional room (.ofOption Json.ofSingle found) = some found ↔
      ∀ x ∈ found, x.isFinite = true := by
  rw [optional_ofOption_eq_iff rfl]
  exact forall₂_congr fun x _ => single_ofSingle_eq_iff room x

theorem exists_of_map {ν β : Type} {decoder : Decoder ν α} {f : α → β} {room : Room} {tree : Json ν}
    {value : β} (hvalue : decoder.map f room tree = some value) :
    ∃ inner, decoder room tree = some inner ∧ f inner = value :=
  Option.map_eq_some_iff.mp hvalue

end Decoder

/-! ## Fields that may be left out, and fields that list values -/

namespace Json

theorem string_ne_null {ν : Type} (s : String) : (string s : Json ν) ≠ .null := by
  simp [string]

theorem ofList_ne_null (encode : α → Json Numeral)
    (values : List α) : ofList encode values ≠ .null := by
  simp [ofList]

theorem names_member? (name : String) (encode : α → Json Numeral) (found : Option α) :
    ((member? name encode found).map Prod.fst).Sublist [name] := by
  cases found with
  | none => exact List.nil_sublist _
  | some value => exact .refl _

@[simp]
theorem lookup_member? (name key : String) (encode : α → Json Numeral) (found : Option α) :
    (member? name encode found).lookup key = if key = name then found.map encode else none := by
  cases found with
  | none => simp [member?]
  | some value =>
      by_cases hkey : key = name
      · simp [member?, hkey]
      · have hne : (key == name) = false := beq_eq_false_iff_ne.mpr hkey
        simp [member?, List.lookup_cons, hkey, hne]

end Json

namespace Fields

variable {ν : Type} {fields : Fields ν} {name : String} {room inner : Room}

theorem exists_of_optional {decoder : Decoder ν α} {found : Option α}
    (hfound : fields.optional name decoder = some found) {value : α} (hvalue : value ∈ found) :
    ∃ tree, decoder fields.room tree = some value ∧ tree ≠ .null := by
  rcases exists_of_withDefault hfound with rfl | ⟨tree, htree⟩
  · cases hvalue
  · exact ⟨tree, Decoder.exists_of_optional htree hvalue⟩

theorem exists_of_list {decoder : Decoder ν α} {values : List α}
    (hvalues : fields.withDefault name decoder.list [] = some values)
    (hinner : fields.room.enter? = some inner) :
    ∀ value ∈ values, ∃ tree, decoder inner tree = some value := by
  rcases exists_of_withDefault hvalues with rfl | ⟨tree, htree⟩
  · exact List.forall_mem_nil _
  · obtain ⟨found, hfound, hitems⟩ := Decoder.exists_of_list htree
    obtain rfl := Option.some.inj (hfound.symm.trans hinner)
    exact hitems

theorem optional_eq_iff {fields : Fields Numeral} {decoder : Decoder Numeral α}
    {encode : α → Json Numeral} {found : Option α}
    (hlookup : fields.found.lookup name = found.map encode)
    (hencode : ∀ value ∈ found, encode value ≠ .null) :
    fields.optional name decoder = some found ↔
      ∀ value ∈ found, decoder fields.room (encode value) = some value := by
  rw [optional, withDefault, hlookup]
  cases found with
  | none => exact iff_of_true rfl nofun
  | some value =>
      change decoder.optional fields.room (encode value) = some (some value) ↔ _
      rw [Decoder.optional_of_ne_null (hencode value rfl), Option.map_eq_some_iff]
      simp

end Fields

end Volley
