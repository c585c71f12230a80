import Volley.Proofs.Bullet.Reindexing
import Volley.Proofs.World.FrameRate
import Volley.Proofs.World.Sight
import Volley.Proofs.World.Stream

/-!
# What bullets look up outside of ticks

A bullet that is spawned sees the world as it is, since the positions of the actors are taken anew
before it is started. A bullet that is removed sees the world as it was when the positions were last
taken, since they are taken anew only after its last rules have run.
-/

namespace Volley.World

variable {world next : World} {act : Act} {effects : List Effect}

/-- All that bullets look up in the course of an act. -/
def lookups (world : World) (act : Act) : List Lookup :=
  (world.dispatches act).flatMap fun dispatch => dispatch.shot.lookups dispatch.around dispatch.call

/-! ## When the positions are taken -/

/-- The world of the last of some ticks, when its positions are taken. -/
def lastPlayed (hosts : HostId → Context) (dt : Float32)
    (world : World) : (count : Nat) → Option World
  | 0 => none
  | count + 1 => some ((runTicks hosts dt count world).1.played dt)

/-- The world whose positions an act takes last, if it takes any. -/
def noted? (world : World) : Act → Option World
  | .spawnShot _ shot => if (world.actor? shot.bullet.id).isSome then none else some world
  | .remove hosts id => (world.removeActor hosts id).toOption.map Prod.fst
  | .step hosts dt =>
      (world.step? hosts dt).bind
        fun (count, _) => lastPlayed hosts (Timing.tickLength world.timing) world count
  | .reset => some world.reset
  | _ => none

/-- The world whose positions have been taken last in a run. -/
def lastNoted (start : World) : List Moment → World
  | [] => start
  | moment :: earlier => (moment.before.noted? moment.act).getD (lastNoted start earlier)

theorem index_runTicks (hosts : HostId → Context) (dt : Float32) (count : Nat) (world : World) :
    (runTicks hosts dt count world).1.index = ((lastPlayed hosts dt world count).map positions).getD
      world.index := by
  cases count with
  | zero => rfl
  | succ count =>
      rw [runTicks_add hosts dt count 1 world]
      rfl

theorem index_spawnShot {hosts : HostId → Context} {shot : Shot}
    {outcome : Except Refusal (List Effect)}
    (hspawn : world.spawnShot hosts shot = (outcome, next)) :
    next.index = ((world.noted? (.spawnShot hosts shot)).map positions).getD world.index := by
  rw [spawnShot] at hspawn
  rw [noted?]
  split at hspawn
  · rename_i htaken
    rw [if_pos htaken]
    cases hspawn
    rfl
  · rename_i hfree
    rw [if_neg hfree]
    dsimp only at hspawn
    split at hspawn <;> cases hspawn <;> rfl

theorem index_removeActor {hosts : HostId → Context} {id : ActorId}
    (hremove : world.removeActor hosts id = .ok (next, effects)) : next.index = next.positions := by
  rcases removeActor_eq_ok hremove with ⟨-, -, rfl⟩ | ⟨-, shot, -, -, rfl⟩
  · rfl
  · rfl

theorem index_edit {id : ActorId} {changes : List Actor.Edit}
    (hedit : world.edit id changes = .ok next) :
    next.index = world.index := by
  rcases unit?_isSome_of_edit hedit with ⟨-, rfl⟩ | ⟨-, -, rfl⟩ <;> rfl

/-- One case for each way in which an act can come out. -/
theorem index_perform (hperform : world.perform act = some (next, effects)) :
    next.index = ((world.noted? act).map positions).getD world.index := by
  cases outcome_perform hperform with
  | fired hspawn => exact index_spawnShot hspawn
  | fireRefused hspawn => exact index_spawnShot hspawn
  | removed hremove =>
      rw [noted?, hremove]
      exact index_removeActor hremove
  | removeRefused hremove =>
      rw [noted?, hremove]
      rfl
  | edited hedit => exact index_edit hedit
  | stepped hstep =>
      rw [noted?, hstep]
      rcases step?_eq_some hstep with ⟨rfl, rfl, -⟩ | ⟨accumulator, rfl, -⟩
      · rfl
      · exact index_runTicks _ _ _ world
  | _ => rfl

theorem Named.distinct_noted (hnamed : world.Named) {noted : World}
    (hnoted : world.noted? act = some noted) :
    noted.Distinct := by
  cases act with
  | spawnShot hosts shot =>
      rw [noted?] at hnoted
      split at hnoted
      · cases hnoted
      · cases hnoted
        exact hnamed.distinct
  | remove hosts id =>
      rw [noted?] at hnoted
      cases hremove : world.removeActor hosts id with
      | ok result =>
          rw [hremove] at hnoted
          cases hnoted
          have hperform : world.perform (.remove hosts id) = some result := by
            rw [World.perform, hremove]
          exact hnamed.distinct.perform hnamed.gameplay hperform
      | error refusal =>
          rw [hremove] at hnoted
          cases hnoted
  | step hosts dt =>
      obtain ⟨⟨count, result⟩, -, hplayed⟩ := Option.bind_eq_some_iff.mp hnoted
      cases count with
      | zero => cases hplayed
      | succ count =>
          cases hplayed
          exact ((hnamed.runTicks _ _ count).played _).distinct
  | reset =>
      cases hnoted
      exact List.nodup_nil
  | _ => cases hnoted

/-- The index of a run is that of the world whose positions have been taken last. -/
theorem Run.index {start : World} {history : List Moment} (hrun : Run start history world)
    (hfresh : start.Fresh) (hindex : start.index = .empty) :
    world.index = (lastNoted start history).positions ∧ (lastNoted start history).Distinct := by
  induction hrun with
  | start =>
      have hunits : start.units = [] := (List.append_eq_nil_iff.mp hfresh.actors).1
      refine ⟨?_, Run.start.named hfresh |>.distinct⟩
      rw [hindex, lastNoted, positions, hunits, hfresh.shots]
      rfl
  | next hrun hperform ih =>
      rename_i before after act effects
      obtain ⟨hlast, hdistinct⟩ := ih
      rw [index_perform hperform, lastNoted]
      dsimp only
      cases hnoted : before.noted? act with
      | none => exact ⟨hlast, hdistinct⟩
      | some noted => exact ⟨rfl, (hrun.named hfresh).distinct_noted hnoted⟩

/-! ## What is looked up -/

/-- The world in which the last rules of a bullet run that is removed: the bullet
is still there, but it has ended. -/
def closing (world : World) (id : ActorId) : World :=
  { world with
    shots := world.shots.map fun shot =>
      if shot.bullet.id = id then
        { shot with
          bullet := { shot.bullet with
            phase := .ended, actor := shot.bullet.actor.edit (.active false),
            endReason := some removed } }
      else shot }

open Lookup (AllBy)

theorem allBy_lookups_spawnShot (hdistinct : world.Distinct) (hosts : HostId → Context)
    (shot : Shot) :
    AllBy (world.sight hosts world.host) (world.lookups (.spawnShot hosts shot)) := by
  rw [lookups, dispatches]
  split
  · exact List.forall_mem_nil _
  · have hsight : ((Link.world world.host).context (world.reindex.around hosts)).unitPosition =
        world.sight hosts world.host := by
      funext unit
      rw [unitPosition_around, show world.reindex.index = world.positions from rfl,
        hdistinct.find?_positions, sight]
    rw [List.flatMap_singleton, ← hsight]
    exact Shot.lookups_start _ _ _

theorem allBy_lookups_remove {noted : World} (hdistinct : noted.Distinct)
    (hindex : world.index = noted.positions) (hbound : ∀ shot ∈ world.shots, Bound shot)
    (hosts : HostId → Context) {id : ActorId} {bullet : Bullet}
    (hunder : under id world.shots = some bullet) :
    AllBy (noted.sight hosts (host? bullet)) (world.lookups (.remove hosts id)) := by
  obtain ⟨shot, hfound, rfl⟩ := Option.map_eq_some_iff.mp hunder
  rw [lookups, dispatches]
  split
  · exact List.forall_mem_nil _
  · rw [shot?, hfound, ← (hbound shot (List.mem_of_find?_eq_some hfound)).locator
      hdistinct hindex hosts]
    exact (List.flatMap_singleton _ _).symm ▸ shot.lookups_finish _ _

theorem Distinct.closing (hdistinct : world.Distinct)
    (id : ActorId) : (world.closing id).Distinct := by
  have hids : (world.closing id).shots.map (fun shot => shot.bullet.actor.id) =
      world.shots.map fun shot => shot.bullet.actor.id := by
    rw [World.closing, List.map_map]
    refine List.map_congr_left fun shot _ => ?_
    dsimp only [Function.comp_apply]
    split <;> rfl
  rw [Distinct, shown_eq] at hdistinct ⊢
  rw [hids]
  exact hdistinct

/-- If a bullet that is removed looks all units up where they are, then the removal comes out as if
the positions had been taken anew when the bullet ended. -/
theorem removeActor_of_present (hdistinct : world.Distinct)
    (hbound : ∀ shot ∈ world.shots, Bound shot)
    {hosts : HostId → Context} {id : ActorId} {bullet : Bullet}
    (hunder : under id world.shots = some bullet)
    (hpresent : AllBy ((world.closing id).sight hosts (host? bullet))
    (world.lookups (.remove hosts id))) :
    ({ world with index := (world.closing id).positions } : World).removeActor hosts id =
      world.removeActor hosts id := by
  obtain ⟨shot, hfound, rfl⟩ := Option.map_eq_some_iff.mp hunder
  have hown : Bound shot := hbound shot (List.mem_of_find?_eq_some hfound)
  let fresh : World := { world with index := (world.closing id).positions }
  change fresh.removeActor hosts id = _
  by_cases hunit : (world.unit? id).isSome
  · exact (if_pos hunit).trans (if_pos hunit).symm
  · have hshot : world.shot? id = some shot := hfound
    have hsame : fresh.shot? id = some shot := hfound
    have hindex : fresh.index = (world.closing id).positions := rfl
    have hsight : shot.bullet.locator
        ((world.around hosts).reindexed (world.closing id).positions) =
        (world.closing id).sight hosts (host? shot.bullet) :=
          hown.locator (hdistinct.closing id) hindex hosts
    rw [World.lookups, dispatches, if_neg hunit, hshot, Option.toList_some, List.map_singleton,
      List.flatMap_singleton, ← hsight] at hpresent
    have hperform : shot.perform (fresh.around hosts) (.finish (some removed)) =
        shot.perform (world.around hosts) (.finish (some removed)) := Shot.finish_reindexed hpresent
    refine (if_neg hunit).trans (Eq.trans ?_ (if_neg hunit).symm)
    rw [hshot, hsame]
    dsimp only
    rw [hperform]
    rfl

/-- In a run, a bullet that is spawned looks all units up in the world as it is. A bullet that is
removed looks them up in the world whose positions have been taken last, which is right just for the
units that the present world has in the same place. If it is right for all of them, then the removal
comes out as if the positions had been taken anew when the bullet ended. -/
theorem Run.lookups_iff {start : World} {history : List Moment} (hrun : Run start history world)
    (hfresh : start.Fresh) (hindex : start.index = .empty) (hosts : HostId → Context) :
    (∀ shot, AllBy (world.sight hosts world.host) (world.lookups (.spawnShot hosts shot))) ∧
      ∀ id bullet, under id world.shots = some bullet →
        let noted := (lastNoted start history).sight hosts (host? bullet)
        let present := (world.closing id).sight hosts (host? bullet)
        let lookups := world.lookups (.remove hosts id)
        AllBy noted lookups ∧ (AllBy present lookups ↔
          ∀ lookup ∈ lookups, noted lookup.unit = present lookup.unit) ∧
          (AllBy present lookups →
            ({ world with index := (world.closing id).positions } : World).removeActor hosts id =
              world.removeActor hosts id) := by
  obtain ⟨hlast, hdistinct⟩ := hrun.index hfresh hindex
  have hown := (hrun.named hfresh).distinct
  have hbound := hrun.bound hfresh.shots
  refine ⟨allBy_lookups_spawnShot hown hosts, fun id bullet hunder => ?_⟩
  intro noted present lookups
  have hnoted : AllBy noted lookups := allBy_lookups_remove hdistinct hlast hbound hosts hunder
  exact ⟨hnoted, forall₂_congr fun lookup hlookup => by rw [hnoted lookup hlookup],
    removeActor_of_present hown hbound hunder⟩

/-! A dart measures its distance to an archer when it ends. The archer has come
since the positions were last taken. -/

/-- A bullet that flies nowhere, with a rule for its end that measures the distance to a unit. -/
def guard (unit : ActorId) : Shot :=
  let near : Condition := .proximity { point := none, unit := some unit, maxDistance := 5 }
  { dart ⟨1⟩ FlyOrder.standard .zero with
    program :=
      { segments := [{
          id := 1
          rules := [{ cue := .bulletEnd, conditions := [near], actions := [] }] }] } }

def guarded : Moment :=
  (create .standard).1.moment (.spawnShot (fun _ => .silent) (guard ⟨2⟩))

def joined : Moment :=
  guarded.after.moment (.spawn (.create ⟨2⟩ .unit "archer" 0))

theorem guarded_fresh : guarded.before.Fresh :=
  ⟨rfl, List.forall_mem_nil _⟩

theorem joined_run : Run guarded.before [joined, guarded] joined.after :=
  (Run.start.moment rfl).moment rfl

/-- The dart does not find the archer, who is there. -/
theorem joined_lookups :
    Run guarded.before [joined, guarded] joined.after ∧ guarded.before.Fresh ∧
      guarded.before.index = .empty ∧
      (under ⟨1⟩ joined.after.shots).map host? = some none ∧
      joined.after.lookups (.remove (fun _ => .silent) ⟨1⟩) = [{ unit := ⟨2⟩, found := none }] ∧
      (joined.after.closing ⟨1⟩).sight (fun _ => .silent) none ⟨2⟩ = some .zero :=
  ⟨joined_run, guarded_fresh, rfl, rfl, rfl, rfl⟩

/-- Another dart is thrown, and that takes the positions anew. -/
def thrownAgain : Moment :=
  joined.after.moment (.spawnShot
    (fun _ => .silent) (dart ⟨3⟩ { FlyOrder.standard with unit := some ⟨2⟩ } .zero))

theorem thrownAgain_lookups :
    Run guarded.before [thrownAgain, joined, guarded] thrownAgain.after ∧ guarded.before.Fresh ∧
      guarded.before.index = .empty ∧
      thrownAgain.after.lookups (.remove (fun _ => .silent) ⟨1⟩) =
        [{ unit := ⟨2⟩, found := some .zero }] ∧
      AllBy ((thrownAgain.after.closing ⟨1⟩).sight (fun _ => .silent) none)
        (thrownAgain.after.lookups (.remove (fun _ => .silent) ⟨1⟩)) := by
  have hrun : Run guarded.before [thrownAgain, joined, guarded] thrownAgain.after :=
    joined_run.moment rfl
  have hlookups : thrownAgain.after.lookups (.remove (fun _ => .silent) ⟨1⟩) =
      [{ unit := ⟨2⟩, found := some .zero }] := rfl
  have hguard : (under ⟨1⟩ thrownAgain.after.shots).map host? = some none := rfl
  obtain ⟨bullet, hunder, hhost⟩ := Option.map_eq_some_iff.mp hguard
  obtain ⟨-, hright, -⟩ := (hrun.lookups_iff guarded_fresh rfl fun _ => .silent).2 ⟨1⟩ bullet hunder
  rw [hhost, hlookups] at hright
  refine ⟨hrun, guarded_fresh, rfl, hlookups, hlookups ▸ hright.mpr ?_⟩
  exact List.forall_mem_singleton.mpr rfl

end Volley.World
