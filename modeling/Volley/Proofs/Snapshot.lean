import Volley.Proofs.Config.RoundTrip
import Volley.Proofs.Json.Indented
import Volley.Snapshot

/-!
# Texts of snapshots

Main statement: a snapshot reads back from either of its two texts exactly if all its numbers are
finite, and then with every bit of them.
-/

namespace Volley

open Decoder
open Json (Spellable spellable_ofOption spellable_ofList)

variable {room : Room}

theorem Vec3.decodeTriple_encodeTriple_eq_iff (hroom : room.Holds 1) {v : Vec3} :
    decodeTriple room v.encodeTriple = some v ↔ ∀ x ∈ v.singles, x.isFinite = true := by
  obtain ⟨inner, hinner, -⟩ := hroom.enter
  cases v
  simp [decodeTriple, encodeTriple, hinner, Option.bind_eq_some_iff, singles]

@[simp]
theorem VisualId.optional_encode (room : Room) (found : Option VisualId) :
    VisualId.decode.optional room (.ofOption VisualId.encode found) = some found :=
  optional_ofOption rfl (fun _ => rfl) found

namespace Actor

def singles (actor : Actor) : List Float32 :=
  actor.position.singles ++ [actor.rotation, actor.scale]

theorem decode_encode_eq_iff (hroom : room.Holds 2) {actor : Actor} :
    decode room actor.encode = some actor ↔ ∀ x ∈ actor.singles, x.isFinite = true := by
  obtain ⟨inner, hinner, hholds⟩ := hroom.enter
  rw [singles, List.forall_mem_append, ← Vec3.decodeTriple_encodeTriple_eq_iff hholds]
  cases actor
  rw [decode, encode, Fields.of?_record (by decide) hinner (.refl _)]
  simp [Fields.required, Fields.optional, Fields.withDefault, Option.bind_eq_some_iff,
    List.lookup_cons]

theorem spellable_encode (actor : Actor) : Spellable actor.encode := by
  have htriple : Spellable actor.position.encodeTriple := by
    refine .array fun tree htree => ?_
    obtain ⟨x, -, rfl⟩ := List.mem_map.mp (show tree ∈
      actor.position.singles.map Json.ofSingle from htree)
    exact Json.spellable_ofSingle x
  have hvisual : ∀ visual : VisualId, Spellable visual.encode :=
    fun visual => Json.spellable_string visual.name
  simp [encode, ActorKind.encode, htriple, spellable_ofOption hvisual]

end Actor

namespace Snapshot

/-- All numbers in a snapshot that are not whole. -/
def singles (snapshot : Snapshot) : List Float32 :=
  snapshot.time :: snapshot.actors.toList.flatMap Actor.singles

theorem decode_encode_eq_iff (hroom : room.Holds 4) {snapshot : Snapshot} :
    decode room snapshot.encode = some snapshot ↔ ∀ x ∈ snapshot.singles, x.isFinite = true := by
  obtain ⟨inner, hinner, hholds⟩ := hroom.enter
  obtain ⟨innermost, hinnermost, hrest⟩ := hholds.enter
  have hactors : Decoder.list Actor.decode inner (.ofList Actor.encode snapshot.actors.toList) =
      some snapshot.actors.toList ↔ ∀ x ∈ snapshot.actors.toList.flatMap Actor.singles,
      x.isFinite = true := by
    rw [list_ofList_eq_iff hinnermost, forall₂_congr
      fun actor _ => Actor.decode_encode_eq_iff hrest,
      List.forall_mem_flatMap]
  rw [singles, List.forall_mem_cons, ← hactors]
  obtain ⟨tick, time, ⟨actors⟩⟩ := snapshot
  rw [decode, encode, Fields.of?_record (by decide) hinner (.refl _)]
  simp [Fields.required, Option.bind_eq_some_iff, List.lookup_cons]

theorem spellable_encode (snapshot : Snapshot) : Spellable snapshot.encode := by
  simp [encode, spellable_ofList Actor.spellable_encode]

/-- A snapshot reads back from its compact text, and from its indented one,
exactly if all its numbers are finite. -/
theorem texts_eq_iff (snapshot : Snapshot) :
    (Stored.ofText? (Stored.text snapshot) = some snapshot ↔
      ∀ x ∈ snapshot.singles, x.isFinite = true) ∧
      (Stored.ofText? (Stored.prettyText snapshot) = some snapshot ↔
        ∀ x ∈ snapshot.singles, x.isFinite = true) := by
  have hspellable : (Stored.encode snapshot).Spellable := spellable_encode snapshot
  have hroom : Room.Holds 4 .ofText := show 4 ≤ 127 by decide
  have hcompact : Stored.ofText? (Stored.text snapshot) = some snapshot ↔
      ∀ x ∈ snapshot.singles, x.isFinite = true := by
    rw [Stored.ofText?_text hspellable]
    exact decode_encode_eq_iff hroom
  refine ⟨hcompact, ?_⟩
  rw [Stored.ofText?_prettyText hspellable]
  exact hcompact

end Snapshot

end Volley
