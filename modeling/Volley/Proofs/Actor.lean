import Mathlib.Order.Defs.Unbundled
import Volley.Actor

/-!
# Actors under edits

An edit never changes who an actor is. What else it may change depends on the edit, so views of an
actor are told apart by the edits they are blind to.
-/

namespace Volley

instance : IsStrictTotalOrder ActorId (· < ·) where
  irrefl id := UInt64.lt_irrefl id.number
  trans _ _ _ := UInt64.lt_trans
  trichotomous first second hfirst hsecond := by
    obtain ⟨first⟩ := first
    obtain ⟨second⟩ := second
    exact congrArg ActorId.mk
      (UInt64.le_antisymm (UInt64.not_lt.mp hsecond) (UInt64.not_lt.mp hfirst))

theorem VisualId.ofActor_injective {first second : ActorId}
    (hname : VisualId.ofActor first = .ofActor second) :
    first = second := by
  have hstrings : "sprite_" ++ Nat.repr first.number.toNat = "sprite_" ++
      Nat.repr second.number.toNat :=
    congrArg VisualId.name hname
  have hdigits := congrArg String.toList hstrings
  rw [String.toList_append, String.toList_append, List.append_cancel_left_eq, Nat.toList_repr,
    Nat.toList_repr] at hdigits
  have hnumber := congrArg (fun digits => Nat.ofDigitChars 10 digits 0) hdigits
  simp only [Nat.ofDigitChars_ten_toDigits] at hnumber
  exact congrArg ActorId.mk (UInt64.toNat_inj.mp hnumber)

namespace Actor

/-- The changes that leave the visual alone. -/
def Edit.SparesVisual : Edit → Prop
  | .visual _ => False
  | _ => True

/-- A view of actors that no allowed change shows, where a bullet's own changes are allowed. -/
structure Blind {β : Type} (allowed : Edit → Prop) (view : Actor → β) : Prop where
  edit : ∀ actor change, allowed change → view (actor.edit change) = view actor
  active : ∀ value, allowed (.active value)
  rotation : ∀ degrees, allowed (.rotation degrees)
  translate : ∀ delta, allowed (.translate delta)

theorem blind_id : Blind (fun _ => True) Actor.id where
  edit actor change _ := actor.edit_id change
  active _ := trivial
  rotation _ := trivial
  translate _ := trivial

/-- An actor apart from its visual. -/
def bare (actor : Actor) : Actor :=
  { actor with visual := none }

/-- Who an actor is, with the visual it is linked to. -/
def badge (actor : Actor) : ActorId × Option VisualId :=
  (actor.id, actor.visual)

theorem blind_badge : Blind Edit.SparesVisual badge where
  edit actor change hspares := by
    cases change with
    | visual value => exact hspares.elim
    | _ => rfl
  active _ := trivial
  rotation _ := trivial
  translate _ := trivial

theorem Blind.editAll {β : Type} {allowed : Edit → Prop} {view : Actor → β}
    (hview : Blind allowed view) (actor : Actor) {changes : List Edit}
    (hchanges : ∀ change ∈ changes, allowed change) :
    view (actor.editAll changes) = view actor := by
  induction changes generalizing actor with
  | nil => rfl
  | cons change rest ih =>
      have hrest := ih (actor.edit change)
        fun later hlater => hchanges later (List.mem_cons_of_mem _ hlater)
      exact hrest.trans (hview.edit actor change (hchanges change List.mem_cons_self))

@[simp]
theorem editAll_id (actor : Actor) (changes : List Edit) : (actor.editAll changes).id = actor.id :=
  blind_id.editAll actor fun _ _ => trivial

end Actor

end Volley
