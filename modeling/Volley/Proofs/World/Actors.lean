import Mathlib.Data.List.Nodup
import Mathlib.Data.List.Perm.Subperm
import Volley.World
import Volley.Proofs.Bullet.Life

/-!
# The actors of a world

A world finds an actor by its id, so no two of its actors may carry the same one. Placing an actor
checks this; everything else edits actors or takes them away.
-/

open scoped List

namespace Volley

namespace World

theorem actor?_eq_find? (world : World) (id : ActorId) :
    world.actor? id = world.actors.find? fun actor => actor.id = id := by
  have hshots : (world.shots.map fun shot => shot.bullet.actor).find? (fun actor => actor.id = id) =
      (world.shot? id).map fun shot => shot.bullet.actor := by
    rw [List.find?_map]
    rfl
  rw [actors, List.find?_append, hshots, actor?, unit?]
  cases world.units.find? fun unit => unit.id = id <;> rfl

/-- What a view shows of the actors of a world. -/
def shown {β : Type} (view : Actor → β) (world : World) : List β :=
  world.actors.map view

theorem shown_eq {β : Type} (view : Actor → β) (world : World) :
    world.shown view = world.units.map view ++ world.shots.map
      fun shot => view shot.bullet.actor := by
  rw [shown, actors, List.map_append, List.map_map]
  rfl

/-- No two actors carry the same id. -/
def Distinct (world : World) : Prop :=
  (world.shown Actor.id).Nodup

variable {world next : World} {id other : ActorId} {actor : Actor}

theorem distinct_of_actors_nil (hempty : world.actors = []) : world.Distinct := by
  rw [Distinct, shown, hempty]
  exact List.nodup_nil

theorem actor?_id (hactor : world.actor? id = some actor) : actor.id = id := by
  rw [actor?_eq_find?] at hactor
  have hkey := List.find?_some hactor
  exact of_decide_eq_true hkey

theorem actor?_isSome_iff : (world.actor? id).isSome ↔ id ∈ world.shown Actor.id := by
  rw [actor?_eq_find?, List.find?_isSome, shown, List.mem_map]
  simp only [decide_eq_true_eq]

theorem Distinct.actor?_eq_some_iff (hdistinct : world.Distinct) :
    world.actor? id = some actor ↔ actor ∈ world.actors ∧ actor.id = id := by
  constructor
  · intro hactor
    refine ⟨?_, actor?_id hactor⟩
    rw [actor?_eq_find?] at hactor
    exact List.mem_of_find?_eq_some hactor
  · rintro ⟨hmem, rfl⟩
    have hsome : (world.actor? actor.id).isSome := actor?_isSome_iff.mpr (List.mem_map_of_mem hmem)
    obtain ⟨found, hfound⟩ := Option.isSome_iff_exists.mp hsome
    have hfoundMem : found ∈ world.actors := by
      rw [actor?_eq_find?] at hfound
      exact List.mem_of_find?_eq_some hfound
    rw [hfound, List.inj_on_of_nodup_map hdistinct hfoundMem hmem (actor?_id hfound)]

/-! ## Edits -/

theorem find?_replaceFirst {α : Type} {key : α → ActorId} {f : α → α} (hf : ∀ a, key (f a) = key a)
    (list : List α) :
    ((replaceFirst (fun a => key a = id) f list).find? fun a => key a = other) =
      if id = other then (list.find? fun a => key a = id).map f else list.find?
        fun a => key a = other := by
  induction list with
  | nil => simp [replaceFirst]
  | cons a rest ih =>
      rw [replaceFirst]
      by_cases hfirst : key a = id
      · by_cases hother : id = other
        · subst hother
          simp [hfirst, hf]
        · simp [hfirst, hf, hother]
      · by_cases hother : id = other
        · subst hother
          simpa [hfirst] using ih
        · rw [if_neg hother, if_neg (by simpa using hfirst), List.find?_cons, List.find?_cons,
            ih, if_neg hother]

theorem mem_replaceFirst {α : Type} {p : α → Bool} {f : α → α} {list : List α} {a : α}
    (hmem : a ∈ replaceFirst p f list) : a ∈ list ∨ ∃ b ∈ list, a = f b := by
  induction list with
  | nil => cases hmem
  | cons b rest ih =>
      rw [replaceFirst] at hmem
      split at hmem
      · rcases List.mem_cons.mp hmem with rfl | hrest
        · exact Or.inr ⟨b, List.mem_cons_self, rfl⟩
        · exact Or.inl (List.mem_cons_of_mem _ hrest)
      · rcases List.mem_cons.mp hmem with rfl | hrest
        · exact Or.inl List.mem_cons_self
        · rcases ih hrest with hold | ⟨c, hc, rfl⟩
          · exact Or.inl (List.mem_cons_of_mem _ hold)
          · exact Or.inr ⟨c, List.mem_cons_of_mem _ hc, rfl⟩

theorem map_replaceFirst {α β : Type} {p : α → Bool} {f : α → α} {view : α → β}
    (hf : ∀ a, view (f a) = view a) (list : List α) :
    (replaceFirst p f list).map view = list.map view := by
  induction list with
  | nil => rfl
  | cons a rest ih =>
      rw [replaceFirst]
      split
      · rw [List.map_cons, List.map_cons, hf]
      · rw [List.map_cons, List.map_cons, ih]

theorem unit?_isSome_of_edit {changes : List Actor.Edit}
    (hedit : world.edit id changes = .ok next) :
    (world.unit? id).isSome ∧ next = { world with units := editUnit changes id world.units } ∨
      world.unit? id = none ∧ (world.shot? id).isSome ∧
        next = { world with shots := editShot changes id world.shots } := by
  rw [edit] at hedit
  split at hedit
  · rename_i hunit
    cases hedit
    exact Or.inl ⟨hunit, rfl⟩
  · rename_i hunit
    split at hedit
    · rename_i hshot
      cases hedit
      exact Or.inr ⟨Option.not_isSome_iff_eq_none.mp hunit, hshot, rfl⟩
    · cases hedit

theorem actor?_edit {changes : List Actor.Edit} (hedit : world.edit id changes = .ok next) :
    next.actor? other =
      if id = other then (world.actor? id).map fun actor => actor.editAll changes
        else world.actor? other := by
  rcases unit?_isSome_of_edit hedit with ⟨hunit, rfl⟩ | ⟨hunit, hshot, rfl⟩
  · have hlook : ∀ other, (editUnit changes id world.units).find? (fun unit => unit.id = other) =
        if id = other then (world.unit? id).map fun actor => actor.editAll changes
          else world.unit? other :=
      fun other => find?_replaceFirst (fun unit => unit.editAll_id changes) world.units
    rw [actor?, unit?, hlook]
    by_cases hother : id = other
    · obtain ⟨unit, hfound⟩ := Option.isSome_iff_exists.mp hunit
      subst hother
      simp [actor?, hfound]
    · rw [if_neg hother, if_neg hother]
      rfl
  · have hlook : ∀ other, (editShot changes id world.shots).find?
        (fun shot => shot.bullet.id = other) =
        if id = other then (world.shot? id).map fun shot =>
          { shot with bullet := { shot.bullet with actor := shot.bullet.actor.editAll changes } }
        else world.shot? other :=
      fun other => find?_replaceFirst (fun shot => shot.bullet.actor.editAll_id changes) world.shots
    rw [actor?, shot?, hlook]
    by_cases hother : id = other
    · subst hother
      obtain ⟨shot, hfound⟩ := Option.isSome_iff_exists.mp hshot
      have hnone : ({ world with shots := editShot changes id world.shots } : World).unit?
        id = none := hunit
      simp [actor?, hfound, hunit, hnone]
    · rw [if_neg hother, if_neg hother]
      rfl

theorem edit_isOk_iff {changes : List Actor.Edit} :
    (∃ next, world.edit id changes = .ok next) ↔ (world.actor? id).isSome := by
  rw [edit, actor?]
  cases hunit : world.unit? id with
  | some unit => simp
  | none => cases hshot : world.shot? id <;> simp

theorem shown_edit {β : Type} {view : Actor → β} {changes : List Actor.Edit}
    (hview : ∀ actor : Actor, view (actor.editAll changes) = view actor)
    (hedit : world.edit id changes = .ok next) : next.shown view = world.shown view := by
  rcases unit?_isSome_of_edit hedit with ⟨-, rfl⟩ | ⟨-, -, rfl⟩
  · rw [shown_eq, shown_eq, editUnit, map_replaceFirst hview]
  · have hshots : (editShot changes id world.shots).map (fun shot => view shot.bullet.actor) =
        world.shots.map fun shot => view shot.bullet.actor :=
      map_replaceFirst (fun shot => hview shot.bullet.actor) world.shots
    rw [shown_eq, shown_eq, hshots]

theorem books_edit {changes : List Actor.Edit} (hedit : world.edit id changes = .ok next) :
    next.shots.map Shot.book = world.shots.map Shot.book := by
  rcases unit?_isSome_of_edit hedit with ⟨-, rfl⟩ | ⟨-, -, rfl⟩
  · rfl
  · refine map_replaceFirst ?_ world.shots
    intro shot
    rfl

theorem Distinct.edit {changes : List Actor.Edit} (hdistinct : world.Distinct)
    (hedit : world.edit id changes = .ok next) : next.Distinct := by
  rw [Distinct, shown_edit (fun actor => actor.editAll_id changes) hedit]
  exact hdistinct

/-! ## Placing and removing -/

theorem spawnActor_eq_ok_iff :
    world.spawnActor actor = .ok next ↔
      world.actor? actor.id = none ∧ next = { world with units := world.units ++ [actor] } := by
  rw [spawnActor]
  split
  · rename_i htaken
    simp [Option.isSome_iff_ne_none.mp htaken]
  · rename_i hfree
    simp [Option.not_isSome_iff_eq_none.mp hfree, eq_comm]

theorem spawnActor_eq_error_iff {refusal : Refusal} :
    world.spawnActor actor = .error refusal ↔
      (world.actor? actor.id).isSome ∧ refusal = .duplicateActor actor.id := by
  rw [spawnActor]
  split
  · rename_i htaken
    simp [htaken, eq_comm]
  · rename_i hfree
    simp [hfree]

theorem shown_spawn {β : Type} (view : Actor → β) (world : World) (actor : Actor) :
    ({ world with units := world.units ++ [actor] } : World).shown view ~ view actor ::
      world.shown view := by
  rw [shown_eq, shown_eq, List.map_append, List.append_assoc]
  exact List.perm_middle

theorem shown_spawnShot {β : Type} (view : Actor → β) (world : World) (shot : Shot) :
    ({ world with shots := world.shots ++ [shot] } : World).shown view ~
      view shot.bullet.actor :: world.shown view := by
  rw [shown_eq, shown_eq, List.map_append, ← List.append_assoc]
  exact List.perm_append_singleton _ _

theorem Distinct.of_perm_cons (hdistinct : world.Distinct) (hfree : world.actor? id = none)
    (hperm : next.shown Actor.id ~ id :: world.shown Actor.id) : next.Distinct := by
  refine hperm.nodup_iff.mpr (List.nodup_cons.mpr ⟨fun hmem => ?_, hdistinct⟩)
  rw [← actor?_isSome_iff, hfree] at hmem
  cases hmem

theorem Distinct.spawnActor (hdistinct : world.Distinct)
    (hspawn : world.spawnActor actor = .ok next) :
    next.Distinct := by
  obtain ⟨hfree, rfl⟩ := spawnActor_eq_ok_iff.mp hspawn
  exact hdistinct.of_perm_cons hfree (shown_spawn Actor.id world actor)

theorem swapErase_perm {α : Type} (p : α → Bool)
    (list : List α) : swapErase p list ~ list.eraseP p := by
  induction list with
  | nil => exact List.Perm.refl _
  | cons a rest ih =>
      rw [swapErase]
      by_cases hfirst : p a
      · rw [if_pos hfirst, List.eraseP_cons_of_pos hfirst]
        cases hlast : rest.getLast? with
        | none => rw [List.getLast?_eq_none_iff.mp hlast]
        | some last =>
            have hsplit : rest.dropLast ++ [last] = rest := List.dropLast_append_getLast? last hlast
            calc
              last :: rest.dropLast ~ rest.dropLast ++ [last] :=
                (List.perm_append_singleton _ _).symm
              _ = rest := hsplit
      · rw [if_neg hfirst, List.eraseP_cons_of_neg hfirst]
        exact ih.cons a

theorem withoutShot_subperm (shots : List Shot) (id : ActorId) : withoutShot shots id <+~ shots :=
  (swapErase_perm _ shots).subperm.trans List.eraseP_sublist.subperm

theorem subperm_map {α β : Type} (f : α → β) {first second : List α} (hsub : first <+~ second) :
    first.map f <+~ second.map f := by
  obtain ⟨middle, hperm, hsublist⟩ := hsub
  exact ⟨middle.map f, hperm.map f, hsublist.map f⟩

theorem shown_subperm {β : Type} {view : Actor → β} {before after : World}
    (hunits : after.units.map view <+~ before.units.map view)
    (hshots : (after.shots.map fun shot => view shot.bullet.actor) <+~
      before.shots.map fun shot => view shot.bullet.actor) :
        after.shown view <+~ before.shown view := by
  rw [shown_eq, shown_eq]
  exact hunits.append hshots

/-- A unit is just taken out; a bullet is ended first. -/
theorem removeActor_eq_ok {hosts : HostId → Context} {effects : List Effect}
    (hremove : world.removeActor hosts id = .ok (next, effects)) :
    (world.unit? id).isSome ∧ effects = [] ∧
        next = { world with units := world.units.filter fun unit => unit.id ≠ id }.reindex ∨
      ¬(world.unit? id).isSome ∧ ∃ shot, world.shot? id = some shot ∧
        effects = (shot.perform (world.around hosts) (.finish (some removed))).2.2 ∧
        next = ({ world with shots := withoutShot world.shots id }.enqueue effects).reindex := by
  rw [removeActor] at hremove
  split at hremove
  · rename_i hunit
    cases hremove
    exact Or.inl ⟨hunit, rfl, rfl⟩
  · rename_i hunit
    split at hremove
    · cases hremove
    · rename_i shot hshot
      cases hremove
      exact Or.inr ⟨hunit, shot, hshot, rfl, rfl⟩

theorem shown_removeActor {β : Type} (view : Actor → β) {hosts : HostId → Context}
    {effects : List Effect} (hremove : world.removeActor hosts id = .ok (next, effects)) :
    next.shown view <+~ world.shown view := by
  rcases removeActor_eq_ok hremove with ⟨-, rfl, rfl⟩ | ⟨-, shot, -, rfl, rfl⟩
  · exact shown_subperm (List.filter_sublist.map view).subperm (List.Subperm.refl _)
  · exact shown_subperm (List.Subperm.refl _) (subperm_map _ (withoutShot_subperm world.shots id))

/-! ## Where scripts come from -/

/-- The systems are the same, and scripts are those from before or come from the given books. -/
structure Inherits (books : List ScriptBook) (before after : World) : Prop where
  gameplay : after.gameplay = before.gameplay
  scripts : ∀ shot ∈ after.shots, shot.book ∈ books ∨ ∃ old ∈ before.shots, shot.book = old.book

theorem Inherits.of_subset {books : List ScriptBook} (hgameplay : next.gameplay = world.gameplay)
    (hshots : next.shots ⊆ world.shots) : Inherits books world next where
  gameplay := hgameplay
  scripts shot hshot := Or.inr ⟨shot, hshots hshot, rfl⟩

theorem Inherits.refl (books : List ScriptBook) (world : World) : Inherits books world world :=
  .of_subset rfl fun _ hshot => hshot

theorem Inherits.trans {books : List ScriptBook} {last : World} (hfirst : Inherits books world next)
    (hsecond : Inherits books next last) : Inherits books world last where
  gameplay := hsecond.gameplay.trans hfirst.gameplay
  scripts shot hshot := by
    rcases hsecond.scripts shot hshot with hnew | ⟨old, hold, hsame⟩
    · exact Or.inl hnew
    · rw [hsame]
      exact hfirst.scripts old hold

/-- What is true of the scripts from before and of the given books is true of all scripts. -/
theorem Inherits.forall_book {books : List ScriptBook} {P : ScriptBook → Prop}
    (hinherits : Inherits books world next) (hbooks : ∀ book ∈ books, P book)
    (hworld : ∀ shot ∈ world.shots, P shot.book) :
    ∀ shot ∈ next.shots, P shot.book := by
  intro shot hshot
  rcases hinherits.scripts shot hshot with hnew | ⟨old, hold, hsame⟩
  · exact hbooks shot.book hnew
  · rw [hsame]
    exact hworld old hold

theorem inherits_edit {changes : List Actor.Edit} (hedit : world.edit id changes = .ok next) :
    Inherits [] world next where
  gameplay := by rcases unit?_isSome_of_edit hedit with ⟨-, rfl⟩ | ⟨-, -, rfl⟩ <;> rfl
  scripts shot hshot := by
    have hbook : shot.book ∈ next.shots.map Shot.book := List.mem_map_of_mem hshot
    rw [books_edit hedit] at hbook
    obtain ⟨before, hbefore, hsame⟩ := List.mem_map.mp hbook
    exact Or.inr ⟨before, hbefore, hsame.symm⟩

theorem inherits_spawnShot (world : World) (hosts : HostId → Context) (shot : Shot) :
    Inherits [shot.book] world (world.spawnShot hosts shot).2 := by
  rw [World.spawnShot]
  split
  · exact .refl _ world
  · have hbook := Shot.perform_book { shot with bullet := subscribe shot.bullet }
      (world.reindex.around hosts)
      (.start (some (.world world.host)))
    dsimp only
    split
    · exact .of_subset rfl fun _ hshot => hshot
    · rename_i reply started effects hnot hperform
      rw [hperform] at hbook
      refine ⟨rfl, fun other hother => ?_⟩
      rcases List.mem_append.mp hother with hold | hnew
      · exact Or.inr ⟨other, hold, rfl⟩
      · rw [List.mem_singleton.mp hnew]
        exact Or.inl (List.mem_singleton.mpr hbook)

theorem inherits_removeActor {hosts : HostId → Context} {effects : List Effect}
    (hremove : world.removeActor hosts id = .ok (next, effects)) : Inherits [] world next := by
  rcases removeActor_eq_ok hremove with ⟨-, rfl, rfl⟩ | ⟨-, shot, -, rfl, rfl⟩
  · exact .of_subset rfl fun _ hshot => hshot
  · exact .of_subset rfl (withoutShot_subperm world.shots id).subset

/-! ## Ticks -/

/-- A step runs its ticks, unless it is ignored, and sets the time that is left over. -/
theorem step?_eq_some {hosts : HostId → Context} {dt : Float32} {count : Nat}
    {effects : List Effect} (hstep : world.step? hosts dt = some (count, next, effects)) :
    count = 0 ∧ next = world ∧ effects = [.noticed (.stepIgnored dt)] ∨
      ∃ accumulator,
        next = { (runTicks hosts (Timing.tickLength world.timing) count world).1 with accumulator } ∧
        effects = (runTicks hosts (Timing.tickLength world.timing) count world).2 := by
  rw [step?] at hstep
  dsimp only at hstep
  split at hstep
  · cases hstep
    exact Or.inl ⟨rfl, rfl, rfl⟩
  · split at hstep
    · cases hstep
    · cases hstep
      exact Or.inr ⟨_, rfl, rfl⟩

theorem runTicks_of_step? {hosts : HostId → Context} {dt : Float32} {count : Nat}
    {effects : List Effect} (hstep : world.step? hosts dt = some (count, next, effects)) :
    ∃ accumulator,
        next = { (runTicks hosts (Timing.tickLength world.timing) count world).1 with accumulator } := by
  rcases step?_eq_some hstep with ⟨rfl, rfl, -⟩ | ⟨accumulator, hnext, -⟩
  · exact ⟨next.accumulator, rfl⟩
  · exact ⟨accumulator, hnext⟩

/-- The systems and the scripts of a world change nothing that a view shows. -/
structure Tame {β : Type} (allowed : Actor.Edit → Prop) (view : Actor → β)
    (world : World) : Prop where
  gameplay : ∀ system ∈ world.gameplay, ∀ dt actor, view (system dt actor) = view actor
  scripts : ∀ shot ∈ world.shots, shot.book.Within allowed

variable {β : Type} {allowed : Actor.Edit → Prop} {view : Actor → β}

theorem Tame.inherits {books : List ScriptBook} (htame : world.Tame allowed view)
    (hbooks : ∀ book ∈ books, book.Within allowed)
    (hinherits : Inherits books world next) : next.Tame allowed view where
  gameplay := hinherits.gameplay ▸ htame.gameplay
  scripts := hinherits.forall_book hbooks htame.scripts

theorem map_applyGameplay {gameplay : List Gameplay} {dt : Float32}
    (hgameplay : ∀ system ∈ gameplay, ∀ actor, view (system dt actor) = view actor)
    (units : List Actor) :
    (applyGameplay gameplay dt units).map view = units.map view := by
  rw [applyGameplay]
  induction gameplay generalizing units with
  | nil => rfl
  | cons system rest ih =>
      rw [List.foldl_cons, ih (fun later hlater => hgameplay later (List.mem_cons_of_mem _ hlater)),
        List.map_map]
      exact List.map_congr_left fun actor _ => hgameplay system List.mem_cons_self actor

theorem map_advanceShots (hview : Actor.Blind allowed view) (around : Surroundings) (dt : Float32)
    {shots : List Shot} (hscripts : ∀ shot ∈ shots, shot.book.Within allowed) :
    ((advanceShots around dt shots).1.map fun shot => view shot.bullet.actor) =
      shots.map fun shot => view shot.bullet.actor := by
  induction shots with
  | nil => rfl
  | cons shot rest ih =>
      have hshot : view (shot.perform around (.update dt)).2.1.bullet.actor =
          view shot.bullet.actor :=
        Shot.perform_view hview (hscripts shot List.mem_cons_self) around trivial
      have hrest := ih fun later hlater => hscripts later (List.mem_cons_of_mem _ hlater)
      rw [advanceShots, List.map_cons, List.map_cons, hrest]
      exact congrArg (· :: _) hshot

theorem book_of_mem_advanceShots {around : Surroundings} {dt : Float32} {shots : List Shot}
    {shot : Shot} (hmem : shot ∈ (advanceShots around dt shots).1) :
    ∃ before ∈ shots, before.book = shot.book := by
  induction shots with
  | nil => cases hmem
  | cons first rest ih =>
      rcases List.mem_cons.mp hmem with rfl | hlater
      · exact ⟨first, List.mem_cons_self, rfl⟩
      · obtain ⟨before, hbefore, hbook⟩ := ih hlater
        exact ⟨before, List.mem_cons_of_mem _ hbefore, hbook⟩

theorem reap_subperm (shots : List Shot) : reap shots <+~ shots := by
  rw [reap]
  generalize (shots.filter isEnded).map (fun shot => shot.bullet.id) = ended
  induction ended generalizing shots with
  | nil => exact List.Subperm.refl _
  | cons id rest ih => exact (ih (withoutShot shots id)).trans (withoutShot_subperm shots id)

theorem kept_subperm (world : World) (shots : List Shot) :
    (if world.reaps then reap shots else shots) <+~ shots := by
  split
  · exact reap_subperm shots
  · exact List.Subperm.refl _

theorem inherits_runTick (world : World) (hosts : HostId → Context) (dt : Float32) :
    Inherits [] world (world.runTick hosts dt).1 where
  gameplay := rfl
  scripts shot hshot := by
    have hkept := (kept_subperm _ _).subset hshot
    obtain ⟨before, hbefore, hbook⟩ := book_of_mem_advanceShots hkept
    exact Or.inr ⟨before, hbefore, hbook.symm⟩

theorem inherits_runTicks (hosts : HostId → Context) (dt : Float32) (count : Nat) (world : World) :
    Inherits [] world (runTicks hosts dt count world).1 := by
  induction count generalizing world with
  | zero => exact .refl _ world
  | succ count ih => exact (inherits_runTick world hosts dt).trans (ih _)

theorem inherits_step? {hosts : HostId → Context} {dt : Float32} {count : Nat}
    {effects : List Effect}
    (hstep : world.step? hosts dt = some (count, next, effects)) : Inherits [] world next := by
  obtain ⟨accumulator, rfl⟩ := runTicks_of_step? hstep
  obtain ⟨hgameplay, hscripts⟩ :=
    inherits_runTicks hosts (Timing.tickLength world.timing) count world
  exact ⟨hgameplay, hscripts⟩

theorem shown_runTick (hview : Actor.Blind allowed view) (htame : world.Tame allowed view)
    (hosts : HostId → Context) (dt : Float32) :
    (world.runTick hosts dt).1.shown view <+~ world.shown view := by
  apply shown_subperm
  · have hunits := map_applyGameplay
      (fun system hsystem => htame.gameplay system hsystem dt) world.units
    exact (List.Perm.of_eq hunits).subperm
  · refine (subperm_map _ (kept_subperm _ _)).trans ?_
    exact (List.Perm.of_eq (map_advanceShots hview _ dt htame.scripts)).subperm

theorem shown_runTicks (hview : Actor.Blind allowed view) (htame : world.Tame allowed view)
    (hosts : HostId → Context) (dt : Float32) (count : Nat) :
    (runTicks hosts dt count world).1.shown view <+~ world.shown view := by
  induction count generalizing world with
  | zero => exact List.Subperm.refl _
  | succ count ih =>
      have hnext := htame.inherits (List.forall_mem_nil _) (inherits_runTick world hosts dt)
      exact (ih hnext).trans (shown_runTick hview htame hosts dt)

theorem shown_step? (hview : Actor.Blind allowed view) (htame : world.Tame allowed view)
    {hosts : HostId → Context} {dt : Float32} {count : Nat} {effects : List Effect}
    (hstep : world.step? hosts dt = some (count, next, effects)) :
    next.shown view <+~ world.shown view := by
  obtain ⟨accumulator, rfl⟩ := runTicks_of_step? hstep
  exact shown_runTicks hview htame hosts _ count

end World

end Volley
