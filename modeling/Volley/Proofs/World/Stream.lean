import Volley.Proofs.Bullet.Relay
import Volley.Proofs.World.Runs

/-!
# The event queue of a world

A world listens to every bullet that it starts. So whatever enters its queue is what the
bullets emit in the calls that are made to them, in the order of these calls, and it
stays there until a host takes it out or the world is reset. Only what a script has
unsubscribed the queue from is missing.
-/

namespace Volley

namespace World

/-! ## The calls of an act -/

/-- A call that is made to a bullet. -/
structure Dispatch where
  shot : Shot
  around : Surroundings
  call : Call

/-- All that the bullet tells in the call. -/
def Dispatch.told (dispatch : Dispatch) : List Effect :=
  (dispatch.shot.perform dispatch.around dispatch.call).2.2

section

variable {world next : World} {hosts : HostId → Context} {act : Act} {effects : List Effect}

/-- In a tick every bullet is updated, in the order in which the bullets stand. -/
def updates (world : World) (hosts : HostId → Context) (dt : Float32) : List Dispatch :=
  world.shots.map fun shot => { shot, around := (world.played dt).around hosts, call := .update dt }

def updatesOf (hosts : HostId → Context) (dt : Float32) : (count : Nat) → World → List Dispatch
  | 0, _ => []
  | count + 1, world => world.updates hosts dt ++
      updatesOf hosts dt count (world.runTick hosts dt).1

/-- The calls to bullets that an act comes down to, in order. -/
def dispatches (world : World) : Act → List Dispatch
  | .spawnShot hosts shot =>
      if (world.actor? shot.bullet.id).isSome then []
      else
        [{ shot := { shot with bullet := subscribe shot.bullet }, around := world.reindex.around hosts
           call := .start (some (.world world.host)) }]
  | .remove hosts id =>
      if (world.unit? id).isSome then []
      else (world.shot? id).toList.map fun shot =>
        { shot, around := world.around hosts, call := .finish (some removed) }
  | .step hosts dt =>
      match world.step? hosts dt with
      | some (count, _, _) => updatesOf hosts (Timing.tickLength world.timing) count world
      | none => []
  | _ => []

theorem told_updates (world : World) (hosts : HostId → Context) (dt : Float32) :
    (world.updates hosts dt).flatMap Dispatch.told = (world.runTick hosts dt).2 := by
  rw [updates, List.flatMap_map, runTick_eq, advanceShots_eq]
  rfl

theorem told_updatesOf (hosts : HostId → Context) (dt : Float32) (count : Nat) (world : World) :
    (updatesOf hosts dt count world).flatMap Dispatch.told = (runTicks hosts dt count world).2 := by
  induction count generalizing world with
  | zero => rfl
  | succ count ih => rw [updatesOf, runTicks, List.flatMap_append, told_updates, ih]

/-- A bullet that has been started before tells nothing when it is refused. -/
theorem effects_launch_of_begun (world : World) (hosts : HostId → Context) {shot : Shot}
    (hbegun : shot.bullet.phase ≠ .pending) : (world.launch hosts shot).2.2 = [] := by
  have hrefused : (subscribe shot.bullet).phase ≠ .pending := hbegun
  rw [launch, Shot.perform, Call.perform, Turn.start, if_pos hrefused]

theorem told_spawnShot_of_error {shot : Shot} {refusal : Refusal}
    (hspawn : (world.spawnShot hosts shot).1 = .error refusal) :
    (world.dispatches (.spawnShot hosts shot)).flatMap Dispatch.told = [] := by
  rw [World.spawnShot] at hspawn
  rw [dispatches]
  split
  · rfl
  · rename_i hfree
    have hbegun : shot.bullet.phase ≠ .pending := by
      intro hpending
      obtain ⟨hdone, -⟩ := world.launch_of_pending hosts hpending
      rw [if_neg hfree] at hspawn
      dsimp only at hspawn
      split at hspawn
      · rename_i hperform
        rw [launch, hperform] at hdone
        cases hdone
      · cases hspawn
    rw [List.flatMap_singleton]
    exact effects_launch_of_begun world hosts hbegun

theorem told_remove_of_error {id : ActorId} {refusal : Refusal}
    (hremove : world.removeActor hosts id = .error refusal) :
    (world.dispatches (.remove hosts id)).flatMap Dispatch.told = [] := by
  rw [removeActor] at hremove
  rw [dispatches]
  split at hremove
  · cases hremove
  · rename_i hunit
    rw [if_neg hunit]
    split at hremove
    · rename_i hshot
      rw [hshot]
      rfl
    · cases hremove

theorem told_remove_of_ok {id : ActorId}
    (hremove : world.removeActor hosts id = .ok (next, effects)) :
    (world.dispatches (.remove hosts id)).flatMap Dispatch.told = effects := by
  rw [dispatches]
  rcases removeActor_eq_ok hremove with ⟨hunit, rfl, -⟩ | ⟨hunit, shot, hshot, rfl, -⟩
  · rw [if_pos hunit]
    rfl
  · rw [if_neg hunit, hshot]
    exact List.flatMap_singleton _ _

/-- What an act tells comes from its calls to bullets, but for frames and for the
remark on a step that is ignored. -/
theorem filterMap_told {β : Type} {f : Effect → Option β}
    (hnoticed : ∀ notice, f (.noticed notice) = none) (hframed : ∀ clock, f (.framed clock) = none)
    (hperform : world.perform act = some (next, effects)) :
    ((world.dispatches act).flatMap Dispatch.told).filterMap f = effects.filterMap f := by
  cases outcome_perform hperform with
  | fired hspawn =>
      obtain ⟨hfree, -, rfl, -⟩ := spawnShot_eq_ok hspawn
      rw [dispatches, hfree]
      exact congrArg (List.filterMap f) (List.flatMap_singleton _ _)
  | fireRefused hspawn => rw [told_spawnShot_of_error (congrArg Prod.fst hspawn)]
  | removed hremove => rw [told_remove_of_ok hremove]
  | removeRefused hremove => rw [told_remove_of_error hremove]
  | stepped hstep =>
      rw [dispatches, hstep]
      rcases step?_eq_some hstep with ⟨rfl, -, rfl⟩ | ⟨accumulator, -, rfl⟩
      · exact (List.filterMap_cons_none (hnoticed _)).symm
      · exact congrArg (List.filterMap f) (told_updatesOf _ _ _ _)
  | framed clock => exact (List.filterMap_cons_none (hframed clock)).symm
  | _ => rfl

/-- No queue listens to the bullet of an act yet. -/
def Act.Unheard : Act → Prop
  | .spawnShot _ shot => ∀ kind, shot.bullet.emitter.queues kind = 0
  | _ => True

/-- The queue of the world takes every event that is watched, and none twice. -/
def Listening (world : World) (watch : Watch) : Prop :=
  ∀ shot ∈ world.shots, shot.bullet.Overheard watch

variable {watch : Watch}

theorem relayed_tellings {around : Surroundings} {dt : Float32} {shots : List Shot}
    (hoverheard : ∀ shot ∈ shots, shot.bullet.Overheard watch)
    (hintact : watch.Intact (shots.flatMap (Shot.tellings around dt))) :
    (∀ shot ∈ shots, (shot.lived around dt).bullet.Overheard watch) ∧
      watch.Relayed (shots.flatMap (Shot.tellings around dt)) := by
  induction shots with
  | nil => exact ⟨List.forall_mem_nil _, .silent rfl rfl⟩
  | cons shot rest ih =>
      obtain ⟨hfirst, hrest⟩ := List.forall_mem_cons.mp hoverheard
      rw [List.flatMap_cons] at hintact ⊢
      obtain ⟨hlived, htold⟩ :=
        Shot.perform_relays hfirst (hintact.of_subset (List.subset_append_left _ _))
      obtain ⟨hothers, hmore⟩ := ih hrest (hintact.of_subset (List.subset_append_right _ _))
      exact ⟨List.forall_mem_cons.mpr ⟨hlived, hothers⟩, htold.append hmore⟩

theorem Listening.runTick (hlistening : world.Listening watch) (hosts : HostId → Context)
    (dt : Float32) (hintact : watch.Intact (world.runTick hosts dt).2) :
    (world.runTick hosts dt).1.Listening watch ∧ watch.Relayed (world.runTick hosts dt).2 := by
  rw [runTick_eq, advanceShots_eq] at hintact ⊢
  obtain ⟨hlived, hrelayed⟩ := relayed_tellings hlistening hintact
  refine ⟨fun shot hshot => ?_, hrelayed⟩
  obtain ⟨earlier, hearlier, rfl⟩ := List.mem_map.mp ((kept_subperm world _).subset hshot)
  exact hlived earlier hearlier

theorem Listening.runTicks (hlistening : world.Listening watch) (hosts : HostId → Context)
    (dt : Float32) (count : Nat) (hintact : watch.Intact (World.runTicks hosts dt count world).2) :
    (World.runTicks hosts dt count world).1.Listening watch ∧
      watch.Relayed (World.runTicks hosts dt count world).2 := by
  induction count generalizing world with
  | zero => exact ⟨hlistening, .silent rfl rfl⟩
  | succ count ih =>
      rw [World.runTicks] at hintact ⊢
      obtain ⟨hnext, hfirst⟩ :=
        hlistening.runTick hosts dt (hintact.of_subset (List.subset_append_left _ _))
      obtain ⟨hlast, hrest⟩ := ih hnext (hintact.of_subset (List.subset_append_right _ _))
      exact ⟨hlast, hfirst.append hrest⟩

/-- An act leaves the queue listening to all that it has not unsubscribed it from. -/
theorem Listening.perform (hlistening : world.Listening watch) (hunheard : act.Unheard)
    (hperform : world.perform act = some (next, effects)) (hintact : watch.Intact effects) :
    next.Listening watch ∧ watch.Relayed effects := by
  cases outcome_perform hperform with
  | fired hspawn =>
      obtain ⟨-, -, rfl, rfl⟩ := spawnShot_eq_ok hspawn
      obtain ⟨hstarted, hrelayed⟩ :=
        Shot.perform_relays (overheard_subscribe hunheard watch) hintact
      exact ⟨List.forall_mem_append.mpr ⟨hlistening, List.forall_mem_singleton.mpr hstarted⟩,
        hrelayed⟩
  | fireRefused hspawn =>
      rcases spawnShot_eq_error hspawn with rfl | rfl
      · exact ⟨hlistening, .silent rfl rfl⟩
      · exact ⟨hlistening, .silent rfl rfl⟩
  | removed hremove =>
      rcases removeActor_eq_ok hremove with ⟨-, rfl, rfl⟩ | ⟨-, shot, hshot, rfl, rfl⟩
      · exact ⟨hlistening, .silent rfl rfl⟩
      · have hoverheard := hlistening shot (List.mem_of_find?_eq_some hshot)
        exact ⟨fun other hother =>
          hlistening other ((withoutShot_subperm world.shots _).subset hother),
          (Shot.perform_relays hoverheard hintact).2⟩
  | edited hedit =>
      refine ⟨?_, .silent rfl rfl⟩
      rcases unit?_isSome_of_edit hedit with ⟨-, rfl⟩ | ⟨-, -, rfl⟩
      · exact hlistening
      · rename_i id changes
        intro shot hshot
        rcases mem_replaceFirst hshot with hold | ⟨old, hold, rfl⟩
        · exact hlistening shot hold
        · exact (hlistening old hold).congr (old.bullet.actor.editAll_id changes) rfl
  | stepped hstep =>
      rcases step?_eq_some hstep with ⟨-, rfl, rfl⟩ | ⟨accumulator, rfl, rfl⟩
      · exact ⟨hlistening, .silent rfl rfl⟩
      · exact hlistening.runTicks _ _ _ hintact
  | emptied => exact ⟨List.forall_mem_nil _, .silent rfl rfl⟩
  | _ => exact ⟨hlistening, .silent rfl rfl⟩

end

/-! ## Runs -/

/-- The calls to bullets in a run, from the beginning. -/
def calls : List Moment → List Dispatch
  | [] => []
  | moment :: earlier => calls earlier ++ moment.before.dispatches moment.act

/-- All that the bullets tell in the calls that are made to them. -/
def uttered (history : List Moment) : List Effect :=
  (calls history).flatMap Dispatch.told

/-- Some moments of a run that led to the world: what went into the queue meanwhile is what was
told, and of that the queue has heard what it was not unsubscribed from. -/
structure Streams (recent : List Moment) (world : World) : Prop where
  stream : stream recent world = (told recent).filterMap Effect.queued?
  uttered : ∀ {β : Type} {f : Effect → Option β}, (∀ notice, f (.noticed notice) = none) →
    (∀ clock, f (.framed clock) = none) → (uttered recent).filterMap f = (told recent).filterMap f
  relayed : ∀ watch : Watch, watch.Intact (told recent) → world.Listening watch ∧
    watch.Relayed (told recent)

theorem Streams.next {recent : List Moment} {moment : Moment}
    (hstreams : Streams recent moment.before) (hact : moment.act ≠ .reset)
    (hunheard : moment.act.Unheard)
    (hperform : moment.before.perform moment.act = some (moment.after, moment.effects)) :
    Streams (moment :: recent) moment.after where
  stream := by
    have hbefore : drained recent ++ moment.before.events =
        (told recent).filterMap Effect.queued? := hstreams.stream
    calc
      World.stream (moment :: recent) moment.after
      _ = drained recent ++ (moment.before.drainedBy moment.act ++ moment.after.events) :=
        List.append_assoc ..
      _ = drained recent ++ (moment.before.events ++ moment.effects.filterMap Effect.queued?) := by
        rw [events_perform hact hperform]
      _ = (told recent).filterMap Effect.queued? ++ moment.effects.filterMap Effect.queued? := by
        rw [← List.append_assoc, hbefore]
      _ = (told (moment :: recent)).filterMap Effect.queued? := (List.filterMap_append ..).symm
  uttered hnoticed hframed := by
    have hbefore := hstreams.uttered hnoticed hframed
    rw [World.uttered] at hbefore ⊢
    rw [calls, told, List.flatMap_append, List.filterMap_append, List.filterMap_append, hbefore,
      filterMap_told hnoticed hframed hperform]
  relayed watch hintact := by
    rw [told] at hintact
    obtain ⟨hlistening, hearlier⟩ :=
      hstreams.relayed watch (hintact.of_subset (List.subset_append_left _ _))
    obtain ⟨hnext, heffects⟩ :=
      hlistening.perform hunheard hperform (hintact.of_subset (List.subset_append_right _ _))
    exact ⟨hnext, hearlier.append heffects⟩

def throwing : Act :=
  .spawnShot (fun _ => .silent) (dart ⟨1⟩ { FlyOrder.standard with point := some .zero } ⟨9, 0, 0⟩)

def rowdy : Emitter :=
  let panicking := (Emitter.empty.on .started (.host fun _ _ => .panicked none)).1
  let failing := (panicking.on .ended (.host fun _ _ => .failed "deaf")).1
  let (leaving, listener) := failing.on .ruleFired (.host fun _ _ => .ok)
  (leaving.off .ruleFired listener).1

def jeering : Act :=
  let quiet := dart ⟨1⟩ { FlyOrder.standard with point := some .zero } ⟨9, 0, 0⟩
  .spawnShot (fun _ => .silent) { quiet with bullet := { quiet.bullet with emitter := rowdy } }

def hurled : Moment :=
  (create .standard).1.moment throwing

def swept : Moment :=
  hurled.after.moment .reset

def jeered : Moment :=
  swept.after.moment jeering

def fetched : Moment :=
  jeered.after.moment .drainEvents

def spurned : Moment :=
  fetched.after.moment throwing

def dropped : Moment :=
  spurned.after.moment (.remove (fun _ => .silent) ⟨1⟩)

def hushing : Act :=
  let hush : CompiledRule :=
    { cue := .bulletStart, conditions := [],
      actions := [.custom { name := "hush", params := .null }] }
  let bullet := (dart ⟨1⟩ FlyOrder.standard .zero).bullet
  .spawnShot (fun _ => .silent)
    { bullet, program := { segments := [{ id := 1, rules := [hush] }] }
      book := { ScriptBook.empty with
                actions := .ofList [("hush", fun _ _ => .one (.off .ended ⟨2⟩))] } }

def muffled : Moment :=
  (create .standard).1.moment hushing

def unheard : Moment :=
  muffled.after.moment (.remove (fun _ => .silent) ⟨1⟩)

example :
    let begun : List BulletEvent := [.ruleFired ⟨1⟩ 1 .bulletStart, .started ⟨1⟩]
    (uttered [unheard, muffled]).filterMap Effect.unqueued? = [(⟨1⟩, .ended)] ∧
      (uttered [unheard, muffled]).filterMap Effect.emitted? = begun ++
        [.ended ⟨1⟩ (some removed)] ∧
      stream [unheard, muffled] unheard.after = begun := by
  decide +kernel

end World

end Volley
