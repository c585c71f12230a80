import Volley.Proofs.World.Identity

/-!
# Where the bullets of a world come from

A bullet of a world was there before an act and has gone on, or the act has launched it. So what is
true of a bullet that is launched, and stays true as it goes on, is true of every bullet of a run.
-/

namespace Volley

/-- A bullet with its actor edited. -/
def Shot.edited (changes : List Actor.Edit) (shot : Shot) : Shot :=
  { shot with bullet := { shot.bullet with actor := shot.bullet.actor.editAll changes } }

theorem Shot.id_edited (changes : List Actor.Edit) (shot : Shot) :
    (shot.edited changes).bullet.id = shot.bullet.id :=
  shot.bullet.actor.editAll_id changes

/-- A bullet's name, with the program and the scripts that it goes by. -/
def Shot.orders (shot : Shot) : ActorId × Program × ScriptBook :=
  (shot.bullet.id, shot.program, shot.book)

theorem Shot.orders_eq_iff {shot other : Shot} : shot.orders = other.orders ↔
    shot.bullet.id = other.bullet.id ∧ shot.program = other.program ∧ shot.book = other.book := by
  rw [Shot.orders, Shot.orders, Prod.mk.injEq, Prod.mk.injEq]

theorem Shot.orders_perform (shot : Shot) (around : Surroundings) (call : Call) :
    (shot.perform around call).2.1.orders = shot.orders :=
  congrArg (fun id => (id, shot.program, shot.book)) (shot.perform_id around call)

theorem Shot.orders_edited (changes : List Actor.Edit) (shot : Shot) :
    (shot.edited changes).orders = shot.orders :=
  congrArg (fun id => (id, shot.program, shot.book)) (shot.id_edited changes)

namespace World

/-- A relation between a bullet and what ticks have made of it. -/
structure Progress (R : Shot → Shot → Prop) : Prop where
  refl : ∀ shot, R shot shot
  trans : ∀ {first second third}, R first second → R second third → R first third
  lived : ∀ around dt shot, R shot (shot.lived around dt)

/-- How a bullet has come to be in the world that an act leaves. -/
inductive Origin (R : Shot → Shot → Prop) (world : World) (act : Act) (shot : Shot) : Prop
  | lasted (old : Shot) (hold : old ∈ world.shots) (hgone : R old shot)
  | launched (hosts : HostId → Context) (young : Shot) (hact : act = .spawnShot hosts young)
      (hfree : world.actor? young.bullet.id = none) (hpending : young.bullet.phase = .pending)
      (hshot : shot = (world.launch hosts young).2.1)

variable {R : Shot → Shot → Prop} {world next : World} {act : Act}

theorem Progress.runTick (hR : Progress R) (world : World) (hosts : HostId → Context)
    (dt : Float32) :
    ∀ shot ∈ (world.runTick hosts dt).1.shots, ∃ old ∈ world.shots, R old shot := by
  intro shot hshot
  rw [runTick_eq, advanceShots_eq] at hshot
  obtain ⟨old, hold, rfl⟩ := List.mem_map.mp ((kept_subperm world _).subset hshot)
  exact ⟨old, hold, hR.lived _ dt old⟩

theorem Progress.runTicks (hR : Progress R) (hosts : HostId → Context) (dt : Float32) (count : Nat)
    (world : World) :
    ∀ shot ∈ (runTicks hosts dt count world).1.shots, ∃ old ∈ world.shots, R old shot := by
  induction count generalizing world with
  | zero => exact fun shot hshot => ⟨shot, hshot, hR.refl shot⟩
  | succ count ih =>
      intro shot hshot
      obtain ⟨middle, hmiddle, hlater⟩ := ih (world.runTick hosts dt).1 shot hshot
      obtain ⟨old, hold, hearlier⟩ := hR.runTick world hosts dt middle hmiddle
      exact ⟨old, hold, hR.trans hearlier hlater⟩

theorem Deed.origin (hR : Progress R)
    (hedit : ∀ id changes, act = .edit id changes → ∀ shot, R shot (shot.edited changes))
    (hdeed : Deed world act next) : ∀ shot ∈ next.shots, Origin R world act shot := by
  have hlasted : ∀ shot ∈ world.shots, Origin R world act shot :=
    fun shot hshot => .lasted shot hshot (hR.refl shot)
  intro shot hshot
  cases hdeed with
  | spawned hfree => exact hlasted shot hshot
  | fired hosts young =>
      cases hspawn : world.spawnShot hosts young with
      | mk outcome after =>
          rw [hspawn] at hshot
          cases outcome with
          | ok effects =>
              obtain ⟨hfree, hpending, -, rfl⟩ := spawnShot_eq_ok hspawn
              rcases List.mem_append.mp hshot with hold | hnew
              · exact hlasted shot hold
              · exact .launched hosts young rfl hfree hpending (List.mem_singleton.mp hnew)
          | error refusal =>
              rcases spawnShot_eq_error hspawn with rfl | rfl
              · exact hlasted shot hshot
              · exact hlasted shot hshot
  | removed hremove =>
      rcases removeActor_eq_ok hremove with ⟨-, -, rfl⟩ | ⟨-, ended, -, -, rfl⟩
      · exact hlasted shot hshot
      · exact hlasted shot ((withoutShot_subperm _ _).subset hshot)
  | edited hchanged =>
      rcases unit?_isSome_of_edit hchanged with ⟨-, rfl⟩ | ⟨-, -, rfl⟩
      · exact hlasted shot hshot
      · rcases mem_replaceFirst hshot with hold | ⟨old, hold, rfl⟩
        · exact hlasted shot hold
        · exact .lasted old hold (hedit _ _ rfl old)
  | stepped hstep =>
      obtain ⟨accumulator, rfl⟩ := runTicks_of_step? hstep
      obtain ⟨old, hold, hgone⟩ := hR.runTicks _ _ _ world shot hshot
      exact .lasted old hold hgone
  | emptied => cases hshot
  | kept hgameplay hunits hshots => exact hlasted shot (hshots ▸ hshot)

/-! ## What is true of every bullet of a run -/

/-- What is true of every bullet that is launched, and stays true as it goes on, is true of all. -/
theorem Run.forall_shot {P : Shot → Prop} {start : World} {history : List Moment}
    (hrun : Run start history world)
    (hshots : start.shots = []) (hR : Progress fun old shot => P old → P shot)
    (hedit : ∀ changes shot, P shot → P (shot.edited changes))
    (hlaunch : ∀ moment ∈ history, ∀ hosts young, moment.act = .spawnShot hosts young →
      young.bullet.phase = .pending → P (moment.before.launch hosts young).2.1) :
        ∀ shot ∈ world.shots, P shot := by
  induction hrun with
  | start =>
      rw [hshots]
      exact List.forall_mem_nil _
  | next hrun hperform ih =>
      obtain ⟨hlast, hearlier⟩ := List.forall_mem_cons.mp hlaunch
      intro shot hshot
      cases (deed_perform hperform).origin hR (fun _ changes _ => hedit changes) shot hshot with
      | lasted old hold hgone => exact hgone (ih hearlier old hold)
      | launched hosts young hact hfree hpending hlaunched =>
          exact hlaunched ▸ hlast hosts young hact hpending

/-- A bullet that has been launched asks the context of a world. -/
def Bound (shot : Shot) : Prop :=
  shot.bullet.phase ≠ .pending ∧ ∃ host, shot.bullet.link = some (.world host)

theorem Bound.lived {shot : Shot} (hbound : Bound shot) (around : Surroundings) (dt : Float32) :
    Bound (shot.lived around dt) := by
  obtain ⟨hbegun, host, hlink⟩ := hbound
  have horderly := shot.perform_orderly around (.update dt)
  exact ⟨horderly.lives.begun hbegun, host, (horderly.bound hbegun).trans hlink⟩

theorem Bound.progress : Progress fun old shot => Bound old → Bound shot where
  refl _ := id
  trans hfirst hsecond := hsecond ∘ hfirst
  lived around dt _ hbound := hbound.lived around dt

theorem Run.bound {start : World} {history : List Moment} (hrun : Run start history world)
    (hshots : start.shots = []) : ∀ shot ∈ world.shots, Bound shot := by
  refine hrun.forall_shot hshots Bound.progress (fun _ _ => id)
    fun moment _ hosts young _ hpending => ?_
  obtain ⟨-, hbegun, hlink⟩ := moment.before.launch_of_pending hosts hpending
  exact ⟨hbegun, _, hlink⟩

/-- Scripts come from the bullets that are spawned. -/
theorem Run.forall_book {P : ScriptBook → Prop} {start : World} {history : List Moment}
    (hrun : Run start history world) (hshots : start.shots = [])
    (hbooks : ∀ moment ∈ history, ∀ book ∈ moment.act.books, P book) :
    ∀ shot ∈ world.shots, P shot.book := by
  induction hrun with
  | start =>
      rw [hshots]
      exact List.forall_mem_nil _
  | next hrun hperform ih =>
      obtain ⟨hlast, hearlier⟩ := List.forall_mem_cons.mp hbooks
      exact (deed_perform hperform).inherits.forall_book hlast (ih hearlier)

/-! ## What bullets go by -/

theorem spawnShot_isOk_iff {hosts : HostId → Context} {shot : Shot} :
    (world.spawnShot hosts shot).1.isOk ↔ world.actor? shot.bullet.id = none ∧
      shot.bullet.phase = .pending := by
  constructor
  · intro hok
    cases hspawn : world.spawnShot hosts shot with
    | mk outcome after =>
        rw [hspawn] at hok
        cases outcome with
        | ok effects =>
            obtain ⟨hfree, hpending, -, -⟩ := spawnShot_eq_ok hspawn
            exact ⟨hfree, hpending⟩
        | error refusal => cases hok
  · rintro ⟨hfree, hpending⟩
    have hstarted := (world.launch_of_pending hosts hpending).1
    rw [spawnShot, hfree]
    dsimp only [Option.isSome_none]
    split
    · contradiction
    · split
      · rename_i hperform
        rw [launch, hperform] at hstarted
        cases hstarted
      · rfl

theorem progress_orders : Progress fun old shot => shot.orders = old.orders where
  refl _ := rfl
  trans hfirst hsecond := hsecond.trans hfirst
  lived around dt shot := shot.orders_perform around (.update dt)

/-- No act gives a bullet other orders: it has those that it had before the
act, or was launched with. -/
theorem Deed.orders (hdeed : Deed world act next) {shot : Shot} (hshot : shot ∈ next.shots) :
    (∃ old ∈ world.shots, shot.orders = old.orders) ∨
      ∃ hosts young, act = .spawnShot hosts young ∧ (world.spawnShot hosts young).1.isOk ∧
        shot.orders = young.orders := by
  cases hdeed.origin progress_orders
    (fun _ changes _ old => old.orders_edited changes) shot hshot with
  | lasted old hold hgone => exact Or.inl ⟨old, hold, hgone⟩
  | launched hosts young hact hfree hpending hlaunched =>
      subst hlaunched
      exact Or.inr ⟨hosts, young, hact, spawnShot_isOk_iff.mpr ⟨hfree, hpending⟩,
        Shot.orders_perform _ _ _⟩

/-- A bullet is launched under an id that no other one goes by. -/
theorem ne_of_spawnShot_isOk {hosts : HostId → Context} {young : Shot}
    (hok : (world.spawnShot hosts young).1.isOk) :
    ∀ old ∈ world.shots, old.bullet.id ≠ young.bullet.id :=
  under_eq_none_iff.mp (under_of_actor? (spawnShot_isOk_iff.mp hok).1)

/-- A run begins without actors, and its systems leave the ids of actors alone. -/
structure Fresh (start : World) : Prop where
  actors : start.actors = []
  gameplay : ∀ system ∈ start.gameplay, ∀ dt actor, (system dt actor).id = actor.id

/-- Every actor has an id of its own, and the systems leave it that. -/
structure Named (world : World) : Prop where
  distinct : world.Distinct
  gameplay : ∀ system ∈ world.gameplay, ∀ dt actor, (system dt actor).id = actor.id

theorem Fresh.shots {start : World} (hfresh : start.Fresh) : start.shots = [] :=
  List.map_eq_nil_iff.mp (List.append_eq_nil_iff.mp hfresh.actors).2

theorem Run.named {start : World} {history : List Moment} (hrun : Run start history world)
    (hfresh : start.Fresh) :
    world.Named := by
  obtain ⟨hsame, hdistinct⟩ := hrun.distinct hfresh.actors hfresh.gameplay
  exact ⟨hdistinct, hsame ▸ hfresh.gameplay⟩

/-- Worlds are named between the ticks of a step as well. -/
theorem Named.runTicks (hnamed : world.Named) (hosts : HostId → Context) (dt : Float32)
    (count : Nat) :
    (runTicks hosts dt count world).1.Named where
  distinct := by
    have htame : world.Tame (fun _ => True) Actor.id :=
      ⟨hnamed.gameplay, fun shot _ => shot.book.within_true⟩
    exact hnamed.distinct.of_subperm (shown_runTicks Actor.blind_id htame hosts dt count)
  gameplay := (inherits_runTicks hosts dt count world).gameplay ▸ hnamed.gameplay

theorem Named.played (hnamed : world.Named) (dt : Float32) : (world.played dt).Named where
  distinct := by
    have hdistinct := hnamed.distinct
    have hunits := map_applyGameplay
      (fun system hsystem => hnamed.gameplay system hsystem dt) world.units
    rw [Distinct, shown_eq] at hdistinct ⊢
    rw [show (world.played dt).units.map Actor.id = world.units.map Actor.id from hunits]
    exact hdistinct
  gameplay := hnamed.gameplay

/-! ## Edits where no id is taken twice -/

theorem Apart.editShot_eq_map {shots : List Shot} (hapart : Apart shots) (changes : List Actor.Edit)
    (id : ActorId) :
    editShot changes id shots = shots.map fun shot => if shot.bullet.id =
      id then shot.edited changes else shot := by
  rw [editShot]
  induction shots with
  | nil => rfl
  | cons shot rest ih =>
      obtain ⟨hfresh, hrest⟩ := List.nodup_cons.mp hapart
      rw [replaceFirst, List.map_cons]
      by_cases hid : shot.bullet.id = id
      · have hothers : rest.map (fun other => if other.bullet.id = id then other.edited changes
            else other) = rest := by
          refine List.map_congr_left
            (fun other hother => if_neg fun hsame => ?_) |>.trans (List.map_id rest)
          exact hfresh (List.mem_map.mpr ⟨other, hother, hsame.trans hid.symm⟩)
        rw [if_pos (decide_eq_true hid), if_pos hid, hothers]
        rfl
      · rw [if_neg (by simpa using hid), if_neg hid, ih hrest]

theorem Distinct.shot_ne_of_unit (hdistinct : world.Distinct) {id : ActorId}
    (hunit : (world.unit? id).isSome) :
    ∀ shot ∈ world.shots, shot.bullet.id ≠ id := by
  obtain ⟨unit, hfound⟩ := Option.isSome_iff_exists.mp hunit
  have hid : unit.id = id := by simpa using List.find?_some hfound
  rw [Distinct, shown_eq] at hdistinct
  rintro shot hshot rfl
  exact (List.nodup_append.mp hdistinct).2.2
    _ (List.mem_map_of_mem (List.mem_of_find?_eq_some hfound)) _
    (List.mem_map_of_mem (f := fun shot : Shot => shot.bullet.actor.id) hshot) hid

theorem Distinct.shots_edit (hdistinct : world.Distinct) {id : ActorId} {changes : List Actor.Edit}
    {effects : List Effect} (hperform : world.perform (.edit id changes) = some (next, effects)) :
    next.shots = world.shots.map fun shot => if shot.bullet.id = id then shot.edited changes
      else shot := by
  have huntouched (hother : ∀ shot ∈ world.shots, shot.bullet.id ≠ id) :
      world.shots = world.shots.map fun shot => if shot.bullet.id =
        id then shot.edited changes else shot :=
    ((List.map_congr_left fun shot hshot => if_neg (hother shot hshot)).trans (List.map_id _)).symm
  cases outcome_perform hperform with
  | edited hedit =>
    rcases unit?_isSome_of_edit hedit with ⟨hunit, rfl⟩ | ⟨-, -, rfl⟩
    · exact huntouched (hdistinct.shot_ne_of_unit hunit)
    · exact hdistinct.apart.editShot_eq_map changes id
  | editRefused hrefused =>
    refine huntouched (under_eq_none_iff.mp
      (under_of_actor? (Option.not_isSome_iff_eq_none.mp fun hsome => ?_)))
    obtain ⟨after, hedit⟩ := edit_isOk_iff.mpr hsome
    cases hrefused.symm.trans hedit

end World

end Volley
