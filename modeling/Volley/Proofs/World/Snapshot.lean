import Volley.Proofs.World.Actors

/-!
# Looking actors up in a snapshot

A snapshot lists the actors of a world in the order of their ids, and finds one by binary search. As
long as no two actors carry the same id it finds what the world finds.
-/

open scoped List

namespace Volley.Snapshot

variable {actors : Array Actor} {id : ActorId} {base size : Nat}

/-- The ids of the actors ascend. -/
def Ascending (actors : Array Actor) : Prop :=
  actors.toList.Pairwise fun a b => a.id < b.id

theorem Ascending.id_lt (hascending : Ascending actors) {i j : Nat} {a b : Actor} (hlt : i < j)
    (ha : actors[i]? = some a) (hb : actors[j]? = some b) : a.id < b.id := by
  obtain ⟨hi, rfl⟩ := Array.getElem?_eq_some_iff.mp ha
  obtain ⟨hj, rfl⟩ := Array.getElem?_eq_some_iff.mp hb
  exact List.pairwise_iff_getElem.mp hascending i j hi hj hlt

/-- The search keeps the place it looks for: nothing from the end of the range on is small enough,
and the start of the range is, unless it is still the start of everything. -/
theorem locate_spec (hascending : Ascending actors) (hrange : base + size ≤ actors.size)
    (hsome : 0 < base → 0 < size)
    (habove : ∀ i actor, base + size ≤ i → actors[i]? = some actor → id < actor.id)
    (hbelow : 0 < base → ∀ actor, actors[base]? = some actor → ¬id < actor.id) {i : Nat}
    {actor : Actor} (hfound : actors[i]? = some actor)
    (hid : actor.id = id) : locate actors id base size = i := by
  induction hsize : size using Nat.strongRecOn generalizing base size with
  | ind bound ih =>
      subst hsize
      have hinside : i < base + size := by
        by_contra houtside
        exact irrefl_of (· < ·) id (hid ▸ habove i actor (Nat.not_lt.mp houtside) hfound)
      rw [locate]
      split
      · rename_i hsmall
        have hstart : base ≤ i := by
          by_contra hbefore
          obtain ⟨first, hfirst⟩ : ∃ first, actors[base]? = some first :=
            ⟨_, Array.getElem?_eq_getElem (by omega)⟩
          exact hbelow (by omega) first hfirst
            (hid ▸ hascending.id_lt (Nat.not_le.mp hbefore) hfound hfirst)
        omega
      · rename_i hlarge
        dsimp only
        obtain ⟨middle, hmiddle⟩ : ∃ middle, actors[base + size / 2]? = some middle :=
          ⟨_, Array.getElem?_eq_getElem (by omega)⟩
        rw [hmiddle]
        dsimp only
        split
        · rename_i hlt
          refine ih (size - size / 2) (by omega) (by omega) (by omega) ?_ hbelow rfl
          intro j other hj hother
          rcases Nat.lt_or_eq_of_le (show base + size / 2 ≤ j by omega) with hlater | hsame
          · exact trans_of (· < ·) hlt (hascending.id_lt hlater hmiddle hother)
          · rw [← hsame, hmiddle] at hother
            rwa [← Option.some.inj hother]
        · rename_i hge
          refine ih (size - size / 2) (by omega) (by omega) (by omega)
            (fun j other hj => habove j other (by omega)) ?_ rfl
          intro _ other hother
          rw [hmiddle] at hother
          rwa [← Option.some.inj hother]

theorem actor?_eq_some_iff {snapshot : Snapshot} (hascending : Ascending snapshot.actors)
    {actor : Actor} :
    snapshot.actor? id = some actor ↔ actor ∈ snapshot.actors.toList ∧ actor.id = id := by
  constructor
  · intro hactor
    rw [actor?] at hactor
    split at hactor
    · rename_i found hfound
      split at hactor
      · rename_i hid
        cases hactor
        exact ⟨Array.mem_toList_iff.mpr (Array.mem_of_getElem? hfound), hid⟩
      · cases hactor
    · cases hactor
  · rintro ⟨hmem, hid⟩
    obtain ⟨i, hi, hfound⟩ := List.mem_iff_getElem.mp hmem
    have hplace : snapshot.actors[i]? = some actor := by
      rw [Array.getElem?_eq_getElem (by simpa using hi)]
      simpa using hfound
    have hsearch : locate snapshot.actors id 0 snapshot.actors.size = i := by
      refine locate_spec hascending (by omega) (by omega) (fun j other hj hother => ?_)
        (fun hpos => absurd hpos (by omega)) hplace hid
      have hbound := (Array.getElem?_eq_some_iff.mp hother).1
      omega
    rw [actor?, hsearch, hplace]
    exact if_pos hid

end Volley.Snapshot

namespace Volley.World

variable {world : World} {id : ActorId}

theorem snapshot_perm (world : World) : world.snapshot.actors.toList ~ world.actors := by
  rw [snapshot, Snapshot.take, List.toList_toArray]
  exact List.mergeSort_perm _ _

theorem Distinct.ascending (hdistinct : world.Distinct) :
    Snapshot.Ascending world.snapshot.actors := by
  have hsorted : world.snapshot.actors.toList.Pairwise fun a b => ¬b.id < a.id := by
    rw [snapshot, Snapshot.take, List.toList_toArray]
    refine (List.pairwise_mergeSort ?_ ?_ _).imp fun {a b} hle => ?_
    · intro a b c hab hbc
      rw [Bool.not_eq_true', decide_eq_false_iff_not] at hab hbc ⊢
      exact UInt64.not_lt.mpr (UInt64.le_trans (UInt64.not_lt.mp hab) (UInt64.not_lt.mp hbc))
    · intro a b
      rw [Bool.or_eq_true, Bool.not_eq_true', Bool.not_eq_true', decide_eq_false_iff_not,
        decide_eq_false_iff_not]
      exact not_and_or.mp fun hboth => asymm_of (· < ·) hboth.1 hboth.2
    · rwa [Bool.not_eq_true', decide_eq_false_iff_not] at hle
  have hnodup := List.pairwise_map.mp (((snapshot_perm world).map Actor.id).nodup_iff.mpr hdistinct)
  apply (hsorted.and hnodup).imp
  intro a b hboth
  have horder := trichotomous_of (α := ActorId) (· < ·) a.id b.id
  exact horder.resolve_right (not_or.mpr ⟨hboth.2, hboth.1⟩)

theorem Distinct.snapshot_actor? (hdistinct : world.Distinct) (id : ActorId) :
    world.snapshot.actor? id = world.actor? id := by
  ext actor
  rw [Snapshot.actor?_eq_some_iff hdistinct.ascending, hdistinct.actor?_eq_some_iff,
    (snapshot_perm world).mem_iff]

theorem Distinct.mem_snapshot_iff (hdistinct : world.Distinct) {actor : Actor} :
    actor ∈ world.snapshot.actors.toList ↔ world.actor? actor.id = some actor := by
  rw [hdistinct.actor?_eq_some_iff, (snapshot_perm world).mem_iff]
  exact (and_iff_left rfl).symm

theorem Distinct.snapshot_nodup (hdistinct : world.Distinct) :
    (world.snapshot.actors.toList.map Actor.id).Nodup :=
  ((snapshot_perm world).map Actor.id).nodup_iff.mpr hdistinct

/-- There is an active actor with the id. -/
def Shows (world : World) (id : ActorId) : Prop :=
  ∃ actor, world.actor? id = some actor ∧ actor.active = true

theorem Distinct.isActive_iff (hdistinct : world.Distinct) :
    world.snapshot.isActive id = true ↔ world.Shows id := by
  rw [Snapshot.isActive, hdistinct.snapshot_actor?, Shows]
  cases world.actor? id <;> simp

end Volley.World
