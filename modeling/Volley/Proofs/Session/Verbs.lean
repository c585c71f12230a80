import Mathlib.Computability.Language
import Mathlib.Order.CompletePartialOrder
import Volley.Proofs.Session.LoadLevel

/-!
# The calls about one visual

A visual is put on the stage, kept up to date, and taken away again; then it may come
back. What is done with one visual is a word, and the words that are in order are
those that a small automaton reads.
-/

namespace Volley

open Computability

/-- What a call does with a visual. -/
inductive Verb where
  | add
  | apply
  | remove
  deriving DecidableEq, Repr

/-- Whether a visual is on the stage after a verb, from whether it was before.
Some verbs are out of place. -/
def Verb.next? : Bool → Verb → Option Bool
  | false, .add => some true
  | true, .apply => some true
  | true, .remove => some false
  | _, _ => none

variable {V : Type} {visual : VisualId} {before middle after : Bool} {word rest : List Verb}

def StageCall.verb? (visual : VisualId) : StageCall V → Option Verb
  | .add id _ => if id = visual then some .add else none
  | .apply id _ => if id = visual then some .apply else none
  | .remove id => if id = visual then some .remove else none
  | _ => none

/-- What some effects do with a visual. -/
def verbs (visual : VisualId) (effects : List (SessionEffect V)) : List Verb :=
  effects.filterMap fun effect => effect.call?.bind (StageCall.verb? visual)

@[simp]
theorem verbs_nil (visual : VisualId) : verbs visual ([] : List (SessionEffect V)) = [] := rfl

@[simp]
theorem verbs_append (visual : VisualId) (first rest : List (SessionEffect V)) :
    verbs visual (first ++ rest) = verbs visual first ++ verbs visual rest :=
  List.filterMap_append

@[simp]
theorem verbs_world (visual : VisualId) (told : Effect) (effects : List (SessionEffect V)) :
    verbs visual (.world told :: effects) = verbs visual effects := rfl

@[simp]
theorem verbs_stage (visual : VisualId) (call : StageCall V) (effects : List (SessionEffect V)) :
    verbs visual (.stage call :: effects) = (call.verb? visual).toList ++ verbs visual effects := by
  rw [verbs, List.filterMap_cons]
  dsimp only [SessionEffect.call?, Option.bind_some]
  cases call.verb? visual <;> rfl

theorem verbs_of_calls_nil {effects : List (SessionEffect V)}
    (hcalls : ∀ effect ∈ effects, effect.call? = none) :
    verbs visual effects = [] := by
  rw [verbs, List.filterMap_eq_nil_iff]
  intro effect hmem
  rw [hcalls effect hmem]
  rfl

theorem add_mem_verbs_iff {effects : List (SessionEffect V)} :
    .add ∈ verbs visual effects ↔ ∃ content, .stage (.add visual content) ∈ effects := by
  rw [verbs, List.mem_filterMap]
  constructor
  · rintro ⟨effect, hmem, heffect⟩
    obtain ⟨call, hcall, hverb⟩ := Option.bind_eq_some_iff.mp heffect
    cases effect <;> cases hcall
    cases call with
    | add id content =>
        rw [StageCall.verb?, Option.ite_none_right_eq_some] at hverb
        exact ⟨content, hverb.1 ▸ hmem⟩
    | load id request => cases hverb
    | overlay overlay terrain => cases hverb
    | remove id => simp [StageCall.verb?] at hverb
    | apply id transform => simp [StageCall.verb?] at hverb
  · rintro ⟨content, hmem⟩
    exact ⟨_, hmem, if_pos rfl⟩

/-- The verbs are all in place, and lead from the stage with or without the visual
to the stage with or without it. -/
def Leads (before : Bool) (word : List Verb) (after : Bool) : Prop :=
  word.foldlM Verb.next? before = some after

theorem Leads.nil (before : Bool) : Leads before [] before := rfl

theorem Leads.append (hfirst : Leads before word middle) (hrest : Leads middle rest after) :
    Leads before (word ++ rest) after := by
  rw [Leads, List.foldlM_append, show _ = _ from hfirst]
  exact hrest

theorem leads_of_applies (hword : ∀ verb ∈ word, verb = .apply) (hon : word ≠ [] → before = true) :
    Leads before word before := by
  induction word with
  | nil => rfl
  | cons verb rest ih =>
      obtain rfl := hon (List.cons_ne_nil _ _)
      rw [hword verb List.mem_cons_self]
      exact ih (fun later hlater => hword later (List.mem_cons_of_mem _ hlater)) fun _ => rfl

/-! ## Words in order -/

/-- A visual is added, applied any number of times and removed, again and again. -/
def protocol : Language Verb :=
  ({[.add]} * {[.apply]}∗ * {[.remove]})∗

/-- What may follow while the visual is on the stage. -/
def onStage : Language Verb :=
  {[.apply]}∗ * {[.remove]} * protocol

theorem add_mul_onStage_le : {[.add]} * onStage ≤ protocol := by
  rw [onStage, ← mul_assoc, ← mul_assoc]
  exact mul_kstar_le_kstar

theorem apply_mul_onStage_le : {[.apply]} * onStage ≤ onStage := by
  rw [onStage, ← mul_assoc, ← mul_assoc]
  exact mul_le_mul_left (mul_le_mul_left mul_kstar_le_kstar _) _

theorem remove_mul_protocol_le : {[.remove]} * protocol ≤ onStage := by
  have hnone : (1 : Language Verb) * {[.remove]} * protocol ≤ onStage :=
    mul_le_mul_left (mul_le_mul_left one_le_kstar _) _
  rwa [one_mul] at hnone

theorem cons_mem {verb : Verb} {first second : Language Verb} (hle : {[verb]} * first ≤ second)
    (hword : word ∈ first) :
    verb :: word ∈ second :=
  hle (Language.mem_mul.mpr ⟨[verb], rfl, word, hword, rfl⟩)

/-- A word whose verbs are all in place can be finished. By induction on the word,
from either state of the stage. -/
theorem Leads.exists_append_mem (hleads : Leads before word after) :
    ∃ rest, word ++ rest ∈ if before then onStage else protocol := by
  induction word generalizing before with
  | nil =>
      cases before with
      | false => exact ⟨[], Language.nil_mem_kstar _⟩
      | true => exact ⟨[.remove], cons_mem remove_mul_protocol_le (Language.nil_mem_kstar _)⟩
  | cons verb word ih =>
      obtain ⟨middle, hverb, hword⟩ := Option.bind_eq_some_iff.mp hleads
      obtain ⟨rest, hrest⟩ := ih hword
      refine ⟨rest, ?_⟩
      cases before <;> cases verb <;> cases hverb
      · exact cons_mem add_mul_onStage_le hrest
      · exact cons_mem apply_mul_onStage_le hrest
      · exact cons_mem remove_mul_protocol_le hrest

/-! ## The stage -/

theorem isSome_perform {stage : Stage V} {call : StageCall V} :
    (stage.perform call visual).isSome =
      match call.verb? visual with
      | some .add => true
      | some .remove => false
      | _ => (stage visual).isSome := by
  cases call with
  | add id content =>
      by_cases hid : id = visual
      · simp [Stage.perform, StageCall.verb?, hid]
      · simp [Stage.perform, StageCall.verb?, hid, Ne.symm hid]
  | remove id =>
      by_cases hid : id = visual
      · simp [Stage.perform, StageCall.verb?, hid]
      · simp [Stage.perform, StageCall.verb?, hid, Ne.symm hid]
  | apply id transform => by_cases hid : id = visual <;> simp [Stage.perform, StageCall.verb?, hid]
  | load id request => rfl
  | overlay overlay terrain => rfl

/-- The visual is on the stage just if the verbs lead there. -/
theorem Leads.isSome_after {stage : Stage V} {effects : List (SessionEffect V)}
    (hleads : Leads (stage visual).isSome (verbs visual effects) after) :
    (stage.after effects visual).isSome = after := by
  induction effects generalizing stage with
  | nil => exact Option.some.inj hleads
  | cons effect rest ih =>
      cases effect with
      | world told => exact ih hleads
      | stage call =>
          change ((stage.perform call).after rest visual).isSome = after
          apply ih
          rw [isSome_perform]
          rw [verbs_stage] at hleads
          cases hverb : call.verb? visual with
          | none =>
              rw [hverb] at hleads
              exact hleads
          | some verb =>
              rw [hverb] at hleads
              obtain ⟨middle, hnext, hrest⟩ := Option.bind_eq_some_iff.mp hleads
              generalize (stage visual).isSome = before at hnext ⊢
              cases before <;> cases verb <;> cases hnext <;> exact hrest

end Volley
