import Volley.Proofs.World.Accounts
import Volley.Proofs.World.Snapshot

/-!
# Identities in a world

Units and bullets are kept apart, but they share their ids. Every act leaves each id to one actor at
most, so a snapshot, which is searched, and a world, which is gone through, know an id for the same
actor. An act that is refused leaves everything as it was, but for the index of the positions.
-/

namespace Volley.World

variable {world : World} {act : Act}

/-- The positions are taken before a bullet is started, so they are up to date
even if it cannot start. -/
theorem perform_of_refused {refusal : Refusal}
    (hrefused : world.answer? act = some (.refused refusal)) :
    ∃ index, world.perform act = some ({ world with index }, []) := by
  cases act with
  | spawn actor =>
      have hspawn : world.spawnActor actor = .error refusal :=
        answer_eq_refused_iff.mp (Option.some.inj hrefused)
      rw [World.perform, hspawn]
      exact ⟨world.index, rfl⟩
  | spawnShot hosts shot =>
      have hspawn : (world.spawnShot hosts shot).1 = .error refusal :=
        answer_eq_refused_iff.mp (Option.some.inj hrefused)
      rcases houtcome : world.spawnShot hosts shot with ⟨outcome, next⟩
      rw [houtcome] at hspawn
      subst hspawn
      rw [World.perform, houtcome]
      rcases spawnShot_eq_error houtcome with rfl | rfl
      · exact ⟨_, rfl⟩
      · exact ⟨world.positions, rfl⟩
  | remove hosts id =>
      have hremove : world.removeActor hosts id = .error refusal :=
        answer_eq_refused_iff.mp (Option.some.inj hrefused)
      rw [World.perform, hremove]
      exact ⟨world.index, rfl⟩
  | edit id changes =>
      have hedit : world.edit id changes = .error refusal :=
        answer_eq_refused_iff.mp (Option.some.inj hrefused)
      rw [World.perform, hedit]
      exact ⟨world.index, rfl⟩
  | step hosts dt =>
      obtain ⟨result, -, hanswer⟩ := Option.map_eq_some_iff.mp hrefused
      cases hanswer
  | _ => cases hrefused

theorem Run.distinct {start : World} {history : List Moment} (hrun : Run start history world)
    (hactors : start.actors = [])
    (hgameplay : ∀ system ∈ start.gameplay, ∀ dt actor, (system dt actor).id = actor.id) :
    world.gameplay = start.gameplay ∧ world.Distinct := by
  induction hrun with
  | start =>
      refine ⟨rfl, ?_⟩
      rw [Distinct, shown, hactors]
      exact List.nodup_nil
  | next hrun hperform ih =>
      obtain ⟨hsame, hdistinct⟩ := ih
      refine ⟨(deed_perform hperform).inherits.gameplay.trans hsame, hdistinct.perform ?_ hperform⟩
      rwa [hsame]

/-- Whatever has been done to a world that was empty at first, no two of its actors carry the same
id, a snapshot lists them all in the strict order of their ids, and the search in the snapshot finds
for each id what the world finds. If an act is refused, then the snapshot, the clocks and the queue
stay the same, and there are no effects. -/
theorem identity_of_run {start : World} {history : List Moment} (hrun : Run start history world)
    (hactors : start.actors = [])
    (hgameplay : ∀ system ∈ start.gameplay, ∀ dt actor, (system dt actor).id = actor.id) :
    world.Distinct ∧ Snapshot.Ascending world.snapshot.actors ∧
      world.snapshot.actors.size = world.actorCount ∧
      (∀ id, world.snapshot.actor? id = world.actor? id) ∧
      ∀ act refusal, world.answer? act = some (.refused refusal) →
        ∃ next, world.perform act = some (next, []) ∧ next = { world with index := next.index } ∧
          next.snapshot = world.snapshot ∧ next.events = world.events := by
  obtain ⟨-, hdistinct⟩ := hrun.distinct hactors hgameplay
  refine ⟨hdistinct, hdistinct.ascending, ?_, hdistinct.snapshot_actor?,
    fun act refusal hrefused => ?_⟩
  · rw [← Array.length_toList, (snapshot_perm world).length_eq, actors, List.length_append,
      List.length_map]
    rfl
  · obtain ⟨index, hperform⟩ := perform_of_refused hrefused
    exact ⟨_, hperform, rfl, rfl, rfl⟩

/-! An archer is placed before a dart is thrown, and a second archer is
refused under the id of the dart. -/

def posted : Moment :=
  (create .standard).1.moment (.spawn (.create ⟨2⟩ .unit "archer" 0))

def loosed : Moment :=
  posted.after.moment throwing

def doubled : Moment :=
  loosed.after.moment (.spawn (.create ⟨1⟩ .unit "archer" 0))

theorem doubled_identity :
    doubled.after.actors.map (fun actor => (actor.id, actor.kind)) =
      [(⟨2⟩, .unit), (⟨1⟩, .bullet)] ∧
      doubled.after.Distinct ∧ Snapshot.Ascending doubled.after.snapshot.actors ∧
      doubled.after.snapshot.actors.size = doubled.after.actorCount ∧
      (∀ id, doubled.after.snapshot.actor? id = doubled.after.actor? id) ∧
      ∃ next, doubled.after.perform throwing = some (next, []) ∧
        next = { doubled.after with index := next.index } ∧ next.snapshot = doubled.after.snapshot ∧
        next.events = doubled.after.events := by
  have hposted : Run (create .standard).1 [posted] posted.after := Run.start.moment rfl
  have hloosed : Run (create .standard).1 [loosed, posted] loosed.after :=
    hposted.moment rfl
  have hdoubled : Run (create .standard).1 [doubled, loosed, posted] doubled.after :=
    hloosed.moment rfl
  obtain ⟨hdistinct, hascending, hsize, hagree, hrefused⟩ :=
    identity_of_run hdoubled rfl (List.forall_mem_nil _)
  refine ⟨rfl, hdistinct, hascending, hsize, hagree,
    hrefused throwing (.duplicateActor ⟨1⟩) ?_⟩
  decide +kernel

end Volley.World
