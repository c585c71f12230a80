import Volley.Proofs.Table
import Volley.Proofs.World.Guise

/-!
# The order of the bullets within a tick

A tick lets the bullets live on one after the other, and a bullet may aim at another one. But it
finds it where it was when the tick began, so what becomes of a bullet, and what it tells, does not
depend on whose turn it was before.
-/

open scoped List

namespace Volley

variable {hosts others : HostId → Context}

namespace Shot

/-- What a tick makes of a bullet. -/
def lived (around : Surroundings) (dt : Float32) (shot : Shot) : Shot :=
  (shot.perform around (.update dt)).2.1

/-- What a bullet tells in a tick. -/
def tellings (around : Surroundings) (dt : Float32) (shot : Shot) : List Effect :=
  (shot.perform around (.update dt)).2.2

theorem lived_eq_of_agree {around other : Surroundings} (hagree : around.Agree other) (dt : Float32)
    (shot : Shot) :
    shot.lived around dt = shot.lived other dt :=
  (perform_alike Actor.guise_self (Eq.refl (shot.inGuise _)) shot.book.goesBy_self hagree
    (.update dt)).2.1

theorem told_tellings_eq_of_agree {around other : Surroundings} (hagree : around.Agree other)
    (dt : Float32) (shot : Shot) :
    Effect.told (shot.tellings around dt) = Effect.told (shot.tellings other dt) :=
  (perform_alike Actor.guise_self (Eq.refl (shot.inGuise _)) shot.book.goesBy_self hagree
    (.update dt)).2.2

theorem lived_id (around : Surroundings) (dt : Float32) (shot : Shot) :
    (shot.lived around dt).bullet.id = shot.bullet.id :=
  shot.perform_id around (.update dt)

/-- The events of a bullet's tick are its own. -/
theorem bullet_of_mem_tellings {around : Surroundings} {dt : Float32} {shot : Shot}
    {event : BulletEvent} (hmem : event ∈ (shot.tellings around dt).filterMap Effect.queued?) :
    event.bullet = shot.bullet.id := by
  obtain ⟨effect, heffect, hqueued⟩ := List.mem_filterMap.mp hmem
  have hown := of_mem_perform heffect
  cases effect with
  | queued other =>
      cases hqueued
      exact hown
  | _ => cases hqueued

end Shot

namespace World

variable {world : World} {order : List Shot}

theorem advanceShots_eq (around : Surroundings) (dt : Float32) (shots : List Shot) :
    advanceShots around dt shots =
      (shots.map (Shot.lived around dt), shots.flatMap (Shot.tellings around dt)) := by
  induction shots with
  | nil => rfl
  | cons shot rest ih =>
      rw [advanceShots, ih]
      rfl

/-- No two bullets carry the same id. -/
def Apart (shots : List Shot) : Prop :=
  (shots.map fun shot => shot.bullet.id).Nodup

theorem Distinct.apart (hdistinct : world.Distinct) : Apart world.shots := by
  rw [Distinct, shown_eq] at hdistinct
  exact hdistinct.of_append_right

theorem Apart.of_perm {shots : List Shot} (hapart : Apart shots)
    (horder : order ~ shots) : Apart order :=
  (horder.map _).nodup_iff.mpr hapart

theorem Apart.lived {shots : List Shot} (hapart : Apart shots) (around : Surroundings)
    (dt : Float32) :
    Apart (shots.map (Shot.lived around dt)) := by
  rw [Apart, List.map_map, List.map_congr_left fun shot _ => shot.lived_id around dt]
  exact hapart

/-- If each bullet has events of its own, those of one bullet can be told from the others. -/
theorem flatMap_filter_own {events : Shot → List BulletEvent}
    (hown : ∀ shot, ∀ event ∈ events shot, event.bullet = shot.bullet.id) {shots : List Shot}
    (hapart : Apart shots) {shot : Shot} (hshot : shot ∈ shots) :
    (shots.flatMap fun other => (events other).filter fun event => event.bullet = shot.bullet.id) =
      events shot := by
  obtain ⟨before, after, rfl⟩ := List.append_of_mem hshot
  rw [Apart, List.map_append, List.map_cons, List.nodup_middle, ← List.map_append,
    List.nodup_cons] at hapart
  have hothers : ∀ other ∈ before ++ after,
      (events other).filter (fun event => event.bullet = shot.bullet.id) = [] := by
    intro other hother
    refine List.filter_eq_nil_iff.mpr fun event hevent hsame =>
      hapart.1 (List.mem_map.mpr ⟨other, hother, ?_⟩)
    rw [← hown other event hevent, of_decide_eq_true hsame]
  have hself : (events shot).filter (fun event => event.bullet = shot.bullet.id) = events shot :=
    List.filter_eq_self.mpr fun event hevent => decide_eq_true (hown shot event hevent)
  rw [List.flatMap_append, List.flatMap_cons, hself,
    List.flatMap_eq_nil_iff.mpr fun other hother => hothers other (List.mem_append_left _ hother),
    List.flatMap_eq_nil_iff.mpr fun other hother => hothers other (List.mem_append_right _ hother),
    List.nil_append,
    List.append_nil]

/-! ## Removing the ended bullets -/

section Reap

variable {shots : List Shot} (hapart : Apart shots)

include hapart

theorem withoutShot_perm (id : ActorId) :
    withoutShot shots id ~ shots.filter fun shot => shot.bullet.id ≠ id := by
  refine (swapErase_perm _ shots).trans (List.Perm.of_eq ?_)
  induction shots with
  | nil => rfl
  | cons shot rest ih =>
      obtain ⟨hfresh, hrest⟩ := List.nodup_cons.mp hapart
      by_cases hid : shot.bullet.id = id
      · have hothers : ∀ other ∈ rest, other.bullet.id ≠ id := by
          rintro other hother rfl
          exact hfresh (List.mem_map.mpr ⟨other, hother, hid.symm⟩)
        rw [List.eraseP_cons_of_pos (by simpa using hid),
          List.filter_cons_of_neg (by simpa using hid),
          List.filter_eq_self.mpr (by simpa using hothers)]
      · rw [List.eraseP_cons_of_neg (by simpa using hid),
          List.filter_cons_of_pos (by simpa using hid), ih hrest]

theorem foldl_withoutShot_perm (ended : List ActorId) :
    ended.foldl withoutShot shots ~ shots.filter fun shot => shot.bullet.id ∉ ended := by
  induction ended generalizing shots with
  | nil => simp
  | cons id rest ih =>
      have hfirst := withoutShot_perm hapart id
      have hleft : Apart (withoutShot shots id) :=
        Apart.of_perm (hapart.sublist (List.filter_sublist.map _)) hfirst
      rw [List.foldl_cons]
      refine ((ih hleft).trans (hfirst.filter _)).trans (List.Perm.of_eq ?_)
      rw [List.filter_filter]
      congr 1
      funext shot
      simp [Bool.and_comm]

/-- However the ended bullets are removed, the others stay. -/
theorem reap_perm : reap shots ~ shots.filter fun shot => !isEnded shot := by
  refine (foldl_withoutShot_perm hapart _).trans
    (List.Perm.of_eq (List.filter_congr fun shot hshot => ?_))
  have hmem : shot.bullet.id ∈ (shots.filter isEnded).map (fun shot => shot.bullet.id) ↔
      isEnded shot = true := by
    constructor
    · intro hid
      obtain ⟨other, hother, hsame⟩ := List.mem_map.mp hid
      obtain ⟨hlisted, hended⟩ := List.mem_filter.mp hother
      rwa [← List.inj_on_of_nodup_map hapart hlisted hshot hsame]
    · intro hended
      exact List.mem_map.mpr ⟨shot, List.mem_filter.mpr ⟨hshot, hended⟩, rfl⟩
  simp only [decide_not, hmem, Bool.decide_eq_true]

theorem kept_perm (world : World)
    (horder : order ~ shots) : world.kept order ~ world.kept shots := by
  rw [kept, kept]
  split
  · exact (reap_perm (hapart.of_perm horder)).trans
      ((horder.filter _).trans (reap_perm hapart).symm)
  · exact horder

end Reap

/-! ## Ticks of the same bullets in another order -/

theorem positions_of_perm (hapart : Apart world.shots) (horder : order ~ world.shots) :
    ({ world with shots := order } : World).positions = world.positions := by
  rw [positions, positions, Table.ofList, Table.insertAll, Table.ofList, Table.insertAll,
    List.foldl_append,
    List.foldl_append]
  refine (Table.Ordered.insertAll Table.ordered_empty _).insertAll_of_perm
    ((horder.filter _).map _) ?_
  rw [List.map_map]
  exact (hapart.of_perm horder).sublist (List.filter_sublist.map _)

theorem played_of_perm (hapart : Apart world.shots) (horder : order ~ world.shots) (dt : Float32) :
    ({ world with shots := order } : World).played dt =
      { world.played dt with shots := order } := by
  have hpositions := @positions_of_perm
    { world with
      running := world.running + 1
      units := applyGameplay world.gameplay dt world.units }
    order hapart horder
  rw [played, played, reindex, hpositions]
  rfl

/-- Each bullet becomes what it becomes by itself, and tells what it tells by itself. -/
theorem advanceShots_of_agree {around other : Surroundings} (hagree : other.Agree around)
    (dt : Float32) (shots : List Shot) :
    (advanceShots other dt shots).1 = shots.map (Shot.lived around dt) ∧
      Effect.told (advanceShots other dt shots).2 =
        shots.flatMap fun shot => Effect.told (shot.tellings around dt) := by
  rw [advanceShots_eq, Effect.told, List.filterMap_flatMap]
  exact ⟨List.map_congr_left fun shot _ => shot.lived_eq_of_agree hagree dt,
    List.flatMap_congr fun shot _ => shot.told_tellings_eq_of_agree hagree dt⟩

section

variable (hapart : Apart world.shots) (horder : order ~ world.shots)
  (hagree : HostsAgree others hosts) (dt : Float32)

include hapart horder hagree

theorem advanceShots_of_perm :
    (advanceShots ((({ world with shots := order } : World).played dt).around others) dt order).1 =
        order.map (Shot.lived ((world.played dt).around hosts) dt) ∧
      Effect.told (advanceShots ((({ world with shots := order } : World).played dt).around others)
        dt order).2 =
        order.flatMap fun shot =>
          Effect.told (shot.tellings ((world.played dt).around hosts) dt) := by
  have hsame : ((world.played dt).around others).Agree ((world.played dt).around hosts) :=
    ⟨rfl, hagree⟩
  rw [played_of_perm hapart horder]
  exact advanceShots_of_agree hsame dt order

theorem events_runTick_of_perm :
    (({ world with shots := order } : World).runTick others dt).1.events =
      world.events ++ order.flatMap fun shot =>
        (shot.tellings ((world.played dt).around hosts) dt).filterMap Effect.queued? := by
  have htold := (advanceShots_of_perm hapart horder hagree dt).2
  have hevents : (({ world with shots := order } : World).runTick others dt).1.events =
      world.events ++ (advanceShots
        ((({ world with shots := order } : World).played dt).around others) dt
        order).2.filterMap Effect.queued? := rfl
  rw [hevents, ← Effect.filterMap_queued?_told, htold, List.filterMap_flatMap]
  simp only [Effect.filterMap_queued?_told]

theorem shots_runTick_of_perm :
    (({ world with shots := order } : World).runTick others dt).1.shots ~
      (world.runTick hosts dt).1.shots := by
  have hturned := (advanceShots_of_perm hapart horder hagree dt).1
  have hstraight := (advanceShots_of_perm hapart (List.Perm.refl _) (.refl hosts) dt).1
  have hkept := kept_perm (hapart.lived ((world.played dt).around hosts) dt) world (horder.map _)
  rw [← hturned, ← hstraight] at hkept
  exact hkept

/-- The events of one bullet are its own, and it has them in the same order. -/
theorem events_filter_of_perm {shot : Shot} (hshot : shot ∈ world.shots) :
    (({ world with shots := order } : World).runTick others dt).1.events.filter
        (fun event => event.bullet = shot.bullet.id) =
      world.events.filter (fun event => event.bullet = shot.bullet.id) ++
        (shot.tellings ((world.played dt).around hosts) dt).filterMap Effect.queued? := by
  rw [events_runTick_of_perm hapart horder hagree, List.filter_append, List.filter_flatMap,
    flatMap_filter_own (fun other event => Shot.bullet_of_mem_tellings) (hapart.of_perm horder)
      (horder.mem_iff.mpr hshot)]

end

/-- In which order a tick visits the bullets does not matter. What becomes of a bullet and what it
tells depends on the bullet and on the surroundings at the beginning of the tick. As long as no two
bullets carry the same id, the rest of the world comes out the same, and only the events of
different bullets may change places. -/
theorem runTick_of_perm (horder : order ~ world.shots) (hagree : HostsAgree others hosts)
    (dt : Float32) :
    let around := (world.played dt).around hosts
    let visited := advanceShots ((world.played dt).around others) dt order
    let turned : World := { world with shots := order }
    visited.1 = order.map (Shot.lived around dt) ∧
      Effect.told visited.2 = order.flatMap (fun shot => Effect.told (shot.tellings around dt)) ∧
      (Apart world.shots →
        advanceShots ((turned.played dt).around others) dt order = visited ∧
          (∀ shot ∈ world.shots,
            (turned.runTick others dt).1.events.filter
              (fun event => event.bullet = shot.bullet.id) =
              world.events.filter (fun event => event.bullet = shot.bullet.id) ++
                (shot.tellings around dt).filterMap Effect.queued?) ∧
          (turned.runTick others dt).1.shots ~ (world.runTick hosts dt).1.shots ∧
          (turned.runTick others dt).1 =
            { (world.runTick hosts dt).1 with
              shots := (turned.runTick others dt).1.shots,
              events := (turned.runTick others dt).1.events }) := by
  have hsame : ((world.played dt).around others).Agree ((world.played dt).around hosts) :=
    ⟨rfl, hagree⟩
  obtain ⟨hlived, htold⟩ := advanceShots_of_agree hsame dt order
  refine ⟨hlived, htold, fun hapart => ⟨?_,
    fun shot => events_filter_of_perm hapart horder hagree dt,
    shots_runTick_of_perm hapart horder hagree dt, ?_⟩⟩
  · rw [played_of_perm hapart horder]
    rfl
  · rw [runTick_eq, runTick_eq, played_of_perm hapart horder]
    rfl

/-! A dart is thrown at the origin, and another one is thrown at the first. -/

/-- A bullet that flies as it is ordered once it has started. -/
def dart (id : ActorId) (order : FlyOrder) (position : Vec3) : Shot :=
  { bullet :=
      .create id { id := 1, name := "dart", description := none, modelId := "dart", segments := [] }
        0 position
    program :=
      { segments := [{
          id := 1
          rules := [{ cue := .bulletStart, conditions := [], actions := [.fly order] }] }] }
    book := .empty }

def chase : World :=
  let silent : HostId → Context := fun _ => .silent
  let thrown := ((create .standard).1.spawnShot silent
    (dart ⟨1⟩ { FlyOrder.standard with point := some .zero } ⟨9, 0, 0⟩)).2
  (thrown.spawnShot silent (dart ⟨2⟩ { FlyOrder.standard with unit := some ⟨1⟩ } ⟨0, 0, 9⟩)).2

theorem chase_apart : Apart chase.shots := by
  rw [Apart]
  decide +kernel

theorem chase_runTick_reverse :
    chase.shots.map (fun shot => (shot.bullet.id, shot.bullet.isFlying)) =
      [(⟨1⟩, true), (⟨2⟩, true)] ∧
      (advanceShots ((chase.played 0.1).around fun _ => .silent) 0.1 chase.shots.reverse).1 =
        chase.shots.reverse.map (Shot.lived ((chase.played 0.1).around fun _ => .silent) 0.1) ∧
      (({ chase with shots := chase.shots.reverse } : World).runTick
        (fun _ => .silent) 0.1).1.shots ~
        (chase.runTick (fun _ => .silent) 0.1).1.shots := by
  obtain ⟨hlived, -, hapart⟩ :=
    runTick_of_perm (List.reverse_perm chase.shots) (.refl fun _ => .silent) 0.1
  obtain ⟨-, -, hshots, -⟩ := hapart chase_apart
  exact ⟨rfl, hlived, hshots⟩

end World

end Volley
