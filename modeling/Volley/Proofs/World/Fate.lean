import Volley.Proofs.Bullet.Lifecycle
import Volley.Proofs.World.Acts
import Volley.Proofs.World.Order

/-!
# What becomes of the bullet under an id

A world holds at most one bullet under an id. Except that a new one may be spawned once
the id is free, whatever is done to the world lets the bullet go on in its life, and
takes it away only when it has ended.
-/

open scoped List

namespace Volley

open Effect (milestones)

namespace Bullet

/-- What becomes of the bullet under an id, if there is one, with what is told
of its life meanwhile. -/
inductive Fate : Option Bullet → Option Bullet → List Effect → Prop
  | absent : Fate none none []
  | stays {before after : Bullet} {told : List Effect} (hid : after.id = before.id)
      (hcourse : before.Course after told) : Fate (some before) (some after) told
  | leaves {before last : Bullet} {told : List Effect} (hid : last.id = before.id)
      (hcourse : before.Course last told)
      (hended : last.phase = .ended) : Fate (some before) none told

variable {first second third : Option Bullet} {told more : List Effect}

theorem Fate.refl (bullet : Option Bullet) : Fate bullet bullet [] := by
  cases bullet with
  | none => exact .absent
  | some bullet => exact .stays rfl (.refl bullet)

theorem Fate.trans (hfirst : Fate first second told) (hsecond : Fate second third more) :
    Fate first third (told ++ more) := by
  cases hfirst with
  | absent =>
      cases hsecond with
      | absent => exact .absent
  | stays hid hcourse =>
      cases hsecond with
      | stays hlast hnext => exact .stays (hlast.trans hid) (hcourse.trans hid hlast hnext)
      | leaves hlast hnext hended =>
          exact .leaves (hlast.trans hid) (hcourse.trans hid hlast hnext) hended
  | leaves hid hcourse hended =>
      cases hsecond with
      | absent =>
          rw [List.append_nil]
          exact .leaves hid hcourse hended

theorem Fate.begun (hfate : Fate first second told)
    (hbegun : ∀ bullet, first = some bullet → bullet.phase ≠ .pending) :
    ∀ bullet, second = some bullet → bullet.phase ≠ .pending := by
  intro bullet hbullet
  cases hfate with
  | absent => cases hbullet
  | stays hid hcourse =>
      cases hbullet
      exact hcourse.begun (hbegun _ rfl)
  | leaves hid hcourse hended => cases hbullet

end Bullet

open Bullet (Fate)

theorem Effect.milestones_of_other {id other : ActorId} (hother : other ≠ id)
    {effects : List Effect}
    (hown : ∀ effect ∈ effects, effect.Of other) : milestones id effects = [] := by
  refine List.filter_eq_nil_iff.mpr fun effect heffect hmilestone => hother ?_
  have hof := hown effect heffect
  cases effect with
  | emitted event =>
      cases event with
      | ruleFired bullet segment cue => cases hmilestone
      | _ => exact hof.symm.trans (of_decide_eq_true hmilestone)
  | endReported host bullet reason => exact hof.symm.trans (of_decide_eq_true hmilestone)
  | _ => cases hmilestone

namespace Shot

variable {id : ActorId}

theorem milestones_perform_of_other (shot : Shot) (around : Surroundings) (call : Call)
    (hother : shot.bullet.id ≠ id) :
    milestones id (shot.perform around call).2.2 = [] :=
  Effect.milestones_of_other hother fun _ => of_mem_perform

theorem perform_fate (shot : Shot) (around : Surroundings) (call : Call) :
    Fate (some shot.bullet) (some (shot.perform around call).2.1.bullet)
      (milestones shot.bullet.id (shot.perform around call).2.2) := by
  obtain ⟨hid, told, hcourse, htold⟩ := (shot.perform_orderly around call).lives
  rw [show milestones shot.bullet.id (shot.perform around call).2.2 = told from htold]
  exact .stays hid hcourse

end Shot

namespace World

/-! ## Finding bullets by their ids -/

def under (id : ActorId) (shots : List Shot) : Option Bullet :=
  (shots.find? fun shot => shot.bullet.id = id).map Shot.bullet

variable {id other : ActorId} {shots order : List Shot}

theorem under_cons (id : ActorId) (shot : Shot) (rest : List Shot) :
    under id (shot :: rest) = if shot.bullet.id = id then some shot.bullet else under id rest := by
  rw [under, List.find?_cons]
  by_cases hid : shot.bullet.id = id
  · simp [hid]
  · simp [hid, under]

theorem under_eq_none_iff : under id shots = none ↔ ∀ shot ∈ shots, shot.bullet.id ≠ id := by
  simp [under]

theorem Apart.under_eq_some_iff (hapart : Apart shots) {bullet : Bullet} :
    under id shots = some bullet ↔ ∃ shot ∈ shots, shot.bullet = bullet ∧ bullet.id = id := by
  induction shots with
  | nil => simp [under]
  | cons shot rest ih =>
      obtain ⟨hfresh, hrest⟩ := List.nodup_cons.mp hapart
      rw [under_cons, List.exists_mem_cons_iff, ← ih hrest]
      split
      · rename_i hid
        constructor
        · rintro ⟨⟩
          exact Or.inl ⟨rfl, hid⟩
        · rintro (⟨rfl, -⟩ | hlater)
          · rfl
          · obtain ⟨later, hmem, rfl, hsame⟩ := (ih hrest).mp hlater
            exact (hfresh (List.mem_map.mpr ⟨later, hmem, hsame.trans hid.symm⟩)).elim
      · rename_i hid
        constructor
        · exact Or.inr
        · rintro (⟨rfl, hsame⟩ | hlater)
          · exact (hid hsame).elim
          · exact hlater

theorem Apart.under_of_perm (hapart : Apart shots)
    (horder : order ~ shots) : under id order = under id shots := by
  refine Option.ext fun bullet => ?_
  rw [(hapart.of_perm horder).under_eq_some_iff, hapart.under_eq_some_iff]
  simp only [horder.mem_iff]

theorem under_append (id : ActorId) (shots : List Shot) (shot : Shot) :
    under id (shots ++ [shot]) = (under id shots).or (if shot.bullet.id = id then some shot.bullet
      else none) := by
  induction shots with
  | nil => exact under_cons id shot []
  | cons first rest ih =>
      rw [List.cons_append, under_cons, under_cons, ih]
      split <;> rfl

theorem Apart.find?_filter (hapart : Apart shots) (p : Shot → Bool) :
    ((shots.filter p).find? fun shot => shot.bullet.id = id) =
      (shots.find? fun shot => shot.bullet.id = id).filter p := by
  induction shots with
  | nil => rfl
  | cons shot rest ih =>
      obtain ⟨hfresh, hrest⟩ := List.nodup_cons.mp hapart
      rw [List.find?_cons]
      by_cases hid : shot.bullet.id = id
      · by_cases hp : p shot
        · simp [hid, hp, Option.filter_some]
        · have hgone : ((rest.filter p).find? fun shot => shot.bullet.id = id) = none := by
            simp only [List.find?_eq_none, decide_eq_true_eq]
            exact fun later hlater hsame =>
              hfresh (List.mem_map.mpr ⟨later, List.mem_of_mem_filter hlater, hsame.trans hid.symm⟩)
          simp [hid, hp, hgone, Option.filter_some]
      · by_cases hp : p shot
        · simp [hid, hp, ih hrest]
        · simp [hid, hp, ih hrest]

/-- If only ended bullets are taken away, the bullets that are left have kept to their lives. -/
theorem Apart.fate_filter (hapart : Apart shots) {p : Shot → Bool}
    (hended : ∀ shot ∈ shots, shot.bullet.id = id → p shot = false → shot.bullet.phase = .ended) :
    Fate (under id shots) (under id (shots.filter p)) [] := by
  rw [under, under, hapart.find?_filter]
  cases hfind : shots.find? fun shot => shot.bullet.id = id with
  | none => exact .absent
  | some shot =>
      rw [Option.filter_some]
      split
      · exact .refl _
      · rename_i hp
        have hid : shot.bullet.id = id := by simpa using List.find?_some hfind
        have hmem := List.mem_of_find?_eq_some hfind
        exact .leaves rfl (.refl _) (hended shot hmem hid (Bool.not_eq_true _ ▸ hp))

/-! ## Ticks -/

section

variable (hapart : Apart shots)

include hapart

theorem Apart.fate_lived (around : Surroundings) (dt : Float32) :
    Fate (under id shots) (under id (shots.map (Shot.lived around dt)))
      (milestones id (shots.flatMap (Shot.tellings around dt))) := by
  induction shots with
  | nil => exact .absent
  | cons shot rest ih =>
      obtain ⟨hfresh, hrest⟩ := List.nodup_cons.mp hapart
      rw [List.map_cons, under_cons, under_cons, shot.lived_id, List.flatMap_cons,
        Effect.milestones_append]
      split
      · rename_i hid
        have hothers : milestones id (rest.flatMap (Shot.tellings around dt)) = [] := by
          rw [milestones, List.filter_flatMap, List.flatMap_eq_nil_iff]
          refine fun later hlater => later.milestones_perform_of_other around (.update dt)
            fun hsame => ?_
          exact hfresh (List.mem_map.mpr ⟨later, hlater, hsame.trans hid.symm⟩)
        rw [hothers, List.append_nil, ← hid]
        exact shot.perform_fate around (.update dt)
      · rename_i hid
        rw [show milestones id (shot.tellings around dt) = [] from
          shot.milestones_perform_of_other around (.update dt) hid, List.nil_append]
        exact ih hrest

theorem Apart.kept (world : World) : Apart (world.kept shots) := by
  rw [World.kept]
  split
  · exact Apart.of_perm (hapart.sublist (List.filter_sublist.map _)) (reap_perm hapart)
  · exact hapart

theorem Apart.fate_kept (world : World) :
    Fate (under id shots) (under id (world.kept shots)) [] := by
  rw [World.kept]
  split
  · rw [Apart.under_of_perm (hapart.sublist (List.filter_sublist.map _)) (reap_perm hapart)]
    refine hapart.fate_filter fun shot _ _ hp => ?_
    simpa [isEnded] using hp
  · exact .refl _

end

variable {world next : World} {hosts : HostId → Context}

section

variable (hapart : Apart world.shots)

include hapart

theorem Apart.runTick (hosts : HostId → Context) (dt : Float32) :
    Apart (world.runTick hosts dt).1.shots := by
  rw [runTick_eq, advanceShots_eq]
  exact (hapart.lived _ dt).kept world

theorem Apart.runTicks (hosts : HostId → Context) (dt : Float32) (count : Nat) :
    Apart (runTicks hosts dt count world).1.shots := by
  induction count generalizing world with
  | zero => exact hapart
  | succ count ih => exact ih (hapart.runTick hosts dt)

theorem fate_runTick (hosts : HostId → Context) (dt : Float32) :
    Fate (under id world.shots) (under id (world.runTick hosts dt).1.shots)
      (milestones id (world.runTick hosts dt).2) := by
  rw [runTick_eq, advanceShots_eq, ← List.append_nil (milestones id _)]
  exact (hapart.fate_lived _ dt).trans ((hapart.lived _ dt).fate_kept world)

theorem fate_runTicks (hosts : HostId → Context) (dt : Float32) (count : Nat) :
    Fate (under id world.shots) (under id (World.runTicks hosts dt count world).1.shots)
      (milestones id (World.runTicks hosts dt count world).2) := by
  induction count generalizing world with
  | zero => exact .refl _
  | succ count ih =>
      rw [World.runTicks, Effect.milestones_append]
      exact (fate_runTick hapart hosts dt).trans (ih (hapart.runTick hosts dt))

end

/-! ## Acts -/

/-- A bullet as it is spawned: listened to, and started in the context of the world. -/
def launch (world : World) (hosts : HostId → Context) (shot : Shot) : Reply × Shot × List Effect :=
  Shot.perform { shot with bullet := subscribe shot.bullet } (world.reindex.around hosts)
    (.start (some (.world world.host)))

theorem launch_of_pending (world : World) (hosts : HostId → Context) {shot : Shot}
    (hpending : shot.bullet.phase = .pending) :
    (world.launch hosts shot).1 = .done ∧ (world.launch hosts shot).2.1.bullet.phase ≠ .pending ∧
      (world.launch hosts shot).2.1.bullet.link = some (.world world.host) :=
  (if_pos hpending).mp ((Shot.perform_orderly { shot with bullet := subscribe shot.bullet }
    _ _).start _ rfl)

theorem launch_of_begun (world : World) (hosts : HostId → Context) {shot : Shot}
    (hbegun : shot.bullet.phase ≠ .pending) :
    (world.launch hosts shot).1 = .refused (.invalidTransition shot.bullet.id shot.bullet.phase) :=
  congrArg Prod.fst <|
    (if_neg hbegun).mp ((Shot.perform_orderly { shot with bullet := subscribe shot.bullet }
      _ _).start _ rfl)

theorem spawnShot_eq_ok {shot : Shot} {effects : List Effect}
    (hspawn : world.spawnShot hosts shot = (.ok effects, next)) :
    world.actor? shot.bullet.id = none ∧ shot.bullet.phase = .pending ∧
      effects = (world.launch hosts shot).2.2 ∧
      next = { world.reindex with shots := world.shots ++ [(world.launch hosts shot).2.1] }.enqueue
        effects := by
  rw [World.spawnShot] at hspawn
  split at hspawn
  · cases hspawn
  · rename_i hfree
    dsimp only at hspawn
    split at hspawn
    · cases hspawn
    · rename_i reply started told hgranted hperform
      have hlaunch : world.launch hosts shot = (reply, started, told) := hperform
      cases hspawn
      rw [hlaunch]
      refine ⟨Option.not_isSome_iff_eq_none.mp hfree, Decidable.byContradiction
        fun hbegun => ?_, rfl, rfl⟩
      have hrefused := world.launch_of_begun hosts hbegun
      rw [hlaunch] at hrefused
      exact hgranted _ hrefused

theorem spawnShot_eq_error {shot : Shot} {refusal : Refusal}
    (hspawn : world.spawnShot hosts shot = (.error refusal, next)) :
    next = world ∨ next = world.reindex := by
  rw [World.spawnShot] at hspawn
  split at hspawn
  · cases hspawn
    exact Or.inl rfl
  · dsimp only at hspawn
    split at hspawn
    · cases hspawn
      exact Or.inr rfl
    · cases hspawn

section

variable {effects : List Effect} (hapart : Apart world.shots)

include hapart

theorem fate_removeActor
    (hbegun : ∀ bullet, under id world.shots = some bullet → bullet.phase ≠ .pending)
    (hremove : world.removeActor hosts other = .ok (next, effects)) :
    Fate (under id world.shots) (under id next.shots) (milestones id effects) := by
  rcases removeActor_eq_ok hremove with ⟨-, rfl, rfl⟩ | ⟨-, shot, hshot, rfl, rfl⟩
  · exact .refl _
  · have hid : shot.bullet.id = other := by simpa using List.find?_some hshot
    change Fate _ (under id (withoutShot world.shots other)) _
    rw [Apart.under_of_perm (hapart.sublist (List.filter_sublist.map _))
      (withoutShot_perm hapart other)]
    by_cases hsame : other = id
    · -- The bullet has been started, so it is ended here at the latest.
      subst hsame
      have hfound : under other world.shots = some shot.bullet :=
        congrArg (Option.map Shot.bullet) hshot
      have hgone : under other (world.shots.filter fun shot => shot.bullet.id ≠ other) = none :=
        under_eq_none_iff.mpr fun later hlater => of_decide_eq_true (List.mem_filter.mp hlater).2
      have hfate := shot.perform_fate (world.around hosts) (.finish (some removed))
      have horderly := shot.perform_orderly (world.around hosts) (.finish (some removed))
      rw [hfound, hgone, ← hid]
      cases hfate with
      | stays hlast hcourse =>
          refine .leaves hlast hcourse ?_
          cases hphase : shot.bullet.phase with
          | pending => exact (hbegun _ hfound hphase).elim
          | active => exact ((if_pos hphase).mp (horderly.finish _ rfl)).1
          | ended => exact (horderly.settled hphase).1
    · rw [shot.milestones_perform_of_other _ _ (hid ▸ hsame)]
      refine hapart.fate_filter fun later _ hlater hp => ?_
      rw [hlater, decide_eq_false_iff_not, not_not] at hp
      exact (hsame hp.symm).elim

theorem fate_step? {dt : Float32} {count : Nat}
    (hstep : world.step? hosts dt = some (count, next, effects)) :
    Fate (under id world.shots) (under id next.shots) (milestones id effects) := by
  rcases step?_eq_some hstep with ⟨-, rfl, rfl⟩ | ⟨accumulator, rfl, rfl⟩
  · exact .refl _
  · exact fate_runTicks hapart hosts _ count

end

theorem fate_edit {changes : List Actor.Edit} (hedit : world.edit other changes = .ok next) :
    Fate (under id world.shots) (under id next.shots) [] := by
  rcases unit?_isSome_of_edit hedit with ⟨-, rfl⟩ | ⟨-, -, rfl⟩
  · exact .refl _
  · have hlook : (editShot changes other world.shots).find? (fun shot => shot.bullet.id = id) =
        if other = id then (world.shot? other).map fun shot =>
          { shot with bullet := { shot.bullet with actor := shot.bullet.actor.editAll changes } }
        else world.shot? id :=
      find?_replaceFirst (fun shot => shot.bullet.actor.editAll_id changes) world.shots
    rw [under, under, hlook]
    split
    · rename_i hsame
      subst hsame
      change Fate ((world.shot? other).map Shot.bullet) _ _
      cases world.shot? other with
      | none => exact .absent
      | some shot => exact .stays (shot.bullet.actor.editAll_id changes) (.stays rfl rfl rfl)
    · exact .refl _

/-- The host that a bullet is spawned for under an id, if one is. -/
def spawned? (world : World) (id : ActorId) : Act → Option (Option HostId)
  | .spawnShot hosts shot =>
      if shot.bullet.id = id then
        match (world.spawnShot hosts shot).1 with
        | .ok _ => some world.host
        | .error _ => none
      else none
  | _ => none

variable {act : Act} {effects : List Effect}

theorem under_of_actor? (hfree : world.actor? id = none) : under id world.shots = none := by
  rw [actor?] at hfree
  cases hunit : world.unit? id with
  | some unit =>
      rw [hunit] at hfree
      cases hfree
  | none =>
      rw [hunit] at hfree
      rw [under, Option.map_eq_none_iff]
      exact Option.map_eq_none_iff.mp hfree

theorem Apart.deed (hapart : Apart world.shots)
    (hdeed : Deed world act next) : Apart next.shots := by
  cases hdeed with
  | spawned hfree => exact hapart
  | fired hosts shot =>
      cases hspawn : world.spawnShot hosts shot with
      | mk outcome next =>
          cases outcome with
          | ok effects =>
              obtain ⟨hfree, -, -, rfl⟩ := spawnShot_eq_ok hspawn
              have hid : (world.launch hosts shot).2.1.bullet.id = shot.bullet.id :=
                Shot.perform_id _ _ _
              change Apart (world.shots ++ [(world.launch hosts shot).2.1])
              rw [Apart, List.map_append, List.map_singleton, hid]
              refine List.nodup_append.mpr ⟨hapart, List.nodup_singleton _, ?_⟩
              rintro _ hmem _ hnew rfl
              obtain ⟨old, hold, hsame⟩ := List.mem_map.mp hmem
              exact under_eq_none_iff.mp (under_of_actor? hfree) old hold
                (hsame.trans (List.mem_singleton.mp hnew))
          | error refusal =>
              rcases spawnShot_eq_error hspawn with rfl | rfl
              · exact hapart
              · exact hapart
  | removed hremove =>
      rename_i hosts id effects
      rcases removeActor_eq_ok hremove with ⟨-, -, rfl⟩ | ⟨-, shot, -, -, rfl⟩
      · exact hapart
      · exact Apart.of_perm (hapart.sublist (List.filter_sublist.map _))
          (withoutShot_perm hapart id)
  | edited hedit =>
      rcases unit?_isSome_of_edit hedit with ⟨-, rfl⟩ | ⟨-, -, rfl⟩
      · exact hapart
      · rw [Apart, editShot, map_replaceFirst]
        · exact hapart
        · exact fun shot => shot.bullet.actor.editAll_id _
  | stepped hstep =>
      obtain ⟨accumulator, rfl⟩ := runTicks_of_step? hstep
      exact hapart.runTicks _ _ _
  | emptied => exact List.nodup_nil
  | kept hgameplay hunits hshots => rwa [hshots]

/-- What an act means for an id: the bullet under it goes on, or a new one is spawned. -/
inductive Turnout (world : World) (id : ActorId) (act : Act) (next : World)
    (effects : List Effect) : Prop
  | goes (hspawned : world.spawned? id act = none)
      (hfate : Fate (under id world.shots) (under id next.shots) (milestones id effects))
  | spawned {bullet : Bullet} (hspawned : world.spawned? id act = some world.host)
      (hfree : under id world.shots = none) (hunder : under id next.shots = some bullet)
      (hbegun : bullet.phase ≠ .pending)
      (hlink : bullet.link = some (.world world.host))
      (hlived : bullet.Lived (milestones id effects))

theorem turnout_spawnShot {hosts : HostId → Context} {shot : Shot}
    (hspawn : world.spawnShot hosts shot = (.ok effects, next)) (id : ActorId) :
    Turnout world id (.spawnShot hosts shot) next effects := by
  have hspawned : world.spawned? id (.spawnShot hosts shot) =
      if shot.bullet.id = id then some world.host else none := by rw [spawned?, hspawn]
  obtain ⟨hfree, hpending, rfl, rfl⟩ := spawnShot_eq_ok hspawn
  have hid : (world.launch hosts shot).2.1.bullet.id = shot.bullet.id := Shot.perform_id _ _ _
  have hunder : under id (world.shots ++ [(world.launch hosts shot).2.1]) =
      (under id world.shots).or (if shot.bullet.id =
        id then some (world.launch hosts shot).2.1.bullet else none) := by
    rw [under_append, hid]
  by_cases hsame : shot.bullet.id = id
  · subst hsame
    rw [under_of_actor? hfree, if_pos rfl] at hunder
    rw [if_pos rfl] at hspawned
    obtain ⟨-, hbegun, hlink⟩ := world.launch_of_pending hosts hpending
    have hlives := (Shot.perform_orderly { shot with bullet := subscribe shot.bullet }
      (world.reindex.around hosts)
      (.start (some (.world world.host)))).lives
    obtain ⟨told, hcourse, htold⟩ := hlives.course
    have hlived : (world.launch hosts shot).2.1.bullet.Lived told := hcourse.lived hid hpending
    rw [show told = milestones shot.bullet.id
      (world.launch hosts shot).2.2 from htold.symm] at hlived
    exact .spawned hspawned (under_of_actor? hfree) hunder hbegun hlink hlived
  · rw [if_neg hsame] at hspawned
    refine .goes hspawned ?_
    change Fate _ (under id (world.shots ++ [(world.launch hosts shot).2.1])) _
    rw [hunder, if_neg hsame, Option.or_none]
    have hquiet : milestones id (world.launch hosts shot).2.2 = [] :=
      Shot.milestones_perform_of_other _ _ _ hsame
    rw [hquiet]
    exact .refl _

/-- Every act but a reset says for each id what has become of the bullet under it. -/
theorem turnout_perform (id : ActorId) (hapart : Apart world.shots)
    (hbegun : ∀ bullet, under id world.shots = some bullet → bullet.phase ≠ .pending)
    (hact : act ≠ .reset) (hperform : world.perform act = some (next, effects)) :
    Turnout world id act next effects := by
  cases outcome_perform hperform with
  | fired hspawn => exact turnout_spawnShot hspawn id
  | fireRefused hspawn =>
      rename_i hosts shot refusal
      have hspawned : world.spawned? id (.spawnShot hosts shot) = none := by
        rw [spawned?, hspawn]
        exact ite_self _
      rcases spawnShot_eq_error hspawn with rfl | rfl
      · exact .goes hspawned (.refl _)
      · exact .goes hspawned (.refl _)
  | removed hremove => exact .goes rfl (fate_removeActor hapart hbegun hremove)
  | edited hedit => exact .goes rfl (fate_edit hedit)
  | stepped hstep => exact .goes rfl (fate_step? hapart hstep)
  | emptied => exact (hact rfl).elim
  | _ => exact .goes rfl (.refl _)

end World

end Volley
