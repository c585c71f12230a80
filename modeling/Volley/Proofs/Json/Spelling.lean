import Volley.Json.Stored
import Volley.Proofs.Json.FreeForm

/-!
# What encoders write can be read

The fraction of every numeral that is written is made of digits, so the text of every encoded value
reads as the tree that it was made of.
-/

namespace Volley

/-! ## Numerals -/

theorem Layout.sound_numeral (layout : Layout) (negative : Bool) (d : Decimal) :
    Json.Sound (layout.numeral negative d) := by
  have hdigits : ∀ digit ∈ digits d.coefficient, digit < 10 := fun digit hdigit => digits_lt hdigit
  rw [Layout.numeral]
  dsimp only
  split
  · split
    · cases layout.pointZero with
      | true => exact fun digit hdigit => (List.mem_singleton.mp hdigit).symm ▸ (by decide)
      | false => exact List.forall_mem_nil _
    · split
      · exact fun digit hdigit => hdigits digit (List.mem_of_mem_drop hdigit)
      · intro digit hdigit
        rcases List.mem_append.mp hdigit with hzero | hdigit
        · exact (List.eq_of_mem_replicate hzero).symm ▸ (by decide)
        · exact hdigits digit hdigit
  · exact fun digit hdigit => hdigits digit (List.mem_of_mem_drop hdigit)

theorem sound_ofInt (n : Int) : Json.Sound (.ofInt n) :=
  List.forall_mem_nil _

theorem sound_of_figure {format : Float.Model.Format} {layout : Layout}
    {x : Float.Model.UnpackedFloat} {numeral : Numeral}
    (hfigure : figure format layout x = .finite numeral) : Json.Sound numeral := by
  cases x with
  | notANumber => cases hfigure
  | infinity sign => cases hfigure
  | zero sign =>
      obtain rfl := Figure.finite.inj hfigure
      exact layout.sound_numeral _ _
  | finite sign mantissa exponent hmantissa =>
      obtain rfl := Figure.finite.inj hfigure
      exact layout.sound_numeral _ _

theorem Json.Number.sound_numeral (n : Json.Number) : Json.Sound n.numeral := by
  cases n with
  | integer n => exact sound_ofInt n
  | real x =>
      rw [numeral]
      split
      · rename_i hfigure
        exact sound_of_figure hfigure
      · exact sound_ofInt 0

/-! ## Trees -/

namespace Json

/-- The text of the tree can be read back. -/
abbrev Spellable (tree : Json Numeral) : Prop :=
  tree.ForNumbers Sound

variable {α : Type} {encode : α → Json Numeral}

@[simp]
theorem spellable_null : Spellable .null := .null

@[simp]
theorem spellable_bool (b : Bool) : Spellable (.bool b) := .bool b

@[simp]
theorem spellable_string (s : String) : Spellable (.string s) := .text (some s)

@[simp]
theorem spellable_ofNat (n : Nat) : Spellable (.ofNat n) := .number (sound_ofInt n)

@[simp]
theorem spellable_ofSingle (x : Float32) : Spellable (.ofSingle x) := by
  rw [ofSingle]
  cases hfigure : figureSingle .storedSingle x with
  | finite numeral => exact .number (sound_of_figure hfigure)
  | _ => exact .null

theorem spellable_ofOption (hencode : ∀ value, Spellable (encode value)) (found : Option α) :
    Spellable (.ofOption encode found) := by
  cases found with
  | none => exact .null
  | some value => exact hencode value

theorem spellable_ofList (hencode : ∀ value, Spellable (encode value)) (values : List α) :
    Spellable (.ofList encode values) := by
  refine .array fun tree htree => ?_
  obtain ⟨value, -, rfl⟩ := List.mem_map.mp htree
  exact hencode value

@[simp]
theorem spellable_record_iff {members : List (String × Json Numeral)} :
    Spellable (.record members) ↔ ∀ member ∈ members, Spellable member.2 := by
  constructor
  · intro hrecord member hmember
    cases hrecord with
    | object hmembers => exact hmembers _ (List.mem_map_of_mem hmember)
  · intro hmembers
    refine .object fun member hmember => ?_
    obtain ⟨found, hfound, rfl⟩ := List.mem_map.mp hmember
    exact hmembers found hfound

theorem spellable_member? (hencode : ∀ value, Spellable (encode value)) (name : String)
    (found : Option α) :
    ∀ member ∈ member? name encode found, Spellable member.2 := by
  cases found with
  | none => exact List.forall_mem_nil _
  | some value => exact List.forall_mem_singleton.mpr (hencode value)

@[simp]
theorem spellable_written (value : FreeForm) : Spellable value.written := by
  induction value using Json.induct with
  | null => exact .null
  | bool b => exact .bool b
  | number n => exact .number n.sound_numeral
  | text s => exact .text s
  | array items ih =>
      rw [written, writtenItems_eq]
      refine .array fun tree htree => ?_
      obtain ⟨item, hitem, rfl⟩ := List.mem_map.mp htree
      exact ih item hitem
  | object members ih =>
      rw [written, writtenMembers_eq]
      refine .object fun tree htree => ?_
      obtain ⟨member, hmember, rfl⟩ := List.mem_map.mp htree
      exact ih member hmember

end Json

/-- A value that is written and read is decoded from what its encoder made of it. -/
theorem Stored.ofText?_text {α : Type} [Stored α] {value : α}
    (hvalue : (Stored.encode value).Spellable) :
    Stored.ofText? (Stored.text value) =
      (Stored.decode .ofText (Stored.encode value) : Option α) := by
  rw [Stored.ofText?, Stored.text, Json.read?_compact hvalue, Option.bind_some]

end Volley
