import Volley.Proofs.Bullet.Guise
import Volley.Proofs.World.Acts

/-!
# What a world depends on

Two worlds whose actors differ only in something that no system and no script looks at stay so,
whatever a host does to both of them. Each operation answers the same in both, and tells the same.
-/

namespace Volley

/-- What a host is answered. -/
inductive Answer where
  | done
  | refused (refusal : Refusal)
  | ticks (count : Nat)
  | drained (events : List BulletEvent)
  deriving DecidableEq, Repr

variable {guise : Actor → Actor}

namespace World

def answer {α : Type} : Except Refusal α → Answer
  | .ok _ => .done
  | .error refusal => .refused refusal

theorem answer_eq_refused_iff {α : Type} {result : Except Refusal α} {refusal : Refusal} :
    answer result = .refused refusal ↔ result = .error refusal := by
  cases result with
  | ok value => exact iff_of_false nofun nofun
  | error reason =>
      rw [answer, Answer.refused.injEq, Except.error.injEq]

/-- The answer to an act; a step that never ends is not answered. -/
def answer? (world : World) : Act → Option Answer
  | .spawn actor => some (answer (world.spawnActor actor))
  | .spawnShot hosts shot => some (answer (world.spawnShot hosts shot).1)
  | .remove hosts id => some (answer (world.removeActor hosts id))
  | .edit id changes => some (answer (world.edit id changes))
  | .step hosts dt => (world.step? hosts dt).map fun result => .ticks result.1
  | .drainEvents => some (.drained world.drainEvents.1)
  | _ => some .done

def inGuise (guise : Actor → Actor) (world : World) : World :=
  { world with units := world.units.map guise, shots := world.shots.map (Shot.inGuise guise) }

/-- The worlds are the same but for what the guise of their actors hides. -/
def Alike (guise : Actor → Actor) (first second : World) : Prop :=
  first.inGuise guise = second.inGuise guise

/-- Systems and scripts go by the guise of actors alone. -/
structure GoesBy (guise : Actor → Actor) (world : World) : Prop where
  gameplay : ∀ system ∈ world.gameplay, ∀ dt actor, guise (system dt (guise actor)) =
    guise (system dt actor)
  scripts : ∀ shot ∈ world.shots, shot.book.GoesBy guise

/-- An act brings in no scripts but such as go by the guise of a bullet's actor. -/
def Act.GoesBy (guise : Actor → Actor) (act : Act) : Prop :=
  ∀ book ∈ act.books, book.GoesBy guise

theorem GoesBy.inherits {books : List ScriptBook} {world next : World} (hworld : world.GoesBy guise)
    (hbooks : ∀ book ∈ books, book.GoesBy guise)
    (hinherits : Inherits books world next) : next.GoesBy guise where
  gameplay := hinherits.gameplay ▸ hworld.gameplay
  scripts := hinherits.forall_book hbooks hworld.scripts

theorem goesBy_self (world : World) : world.GoesBy fun actor => actor where
  gameplay _ _ _ _ := rfl
  scripts shot _ := shot.book.goesBy_self

theorem inGuise_self (world : World) : world.inGuise (fun actor => actor) = world := by
  rw [inGuise, List.map_id', show Shot.inGuise (fun actor => actor) = fun shot =>
    shot from rfl, List.map_id']

theorem alike_self_iff {first second : World} :
    first.Alike (fun actor => actor) second ↔ first = second := by
  rw [Alike, inGuise_self, inGuise_self]

/-! ## Lists of actors -/

section Lists

variable {α : Type} {g : α → α} {p : α → Bool} {first second : List α}

theorem map_replaceFirst_congr {f : α → α} (hp : ∀ a, p (g a) = p a)
    (hf : ∀ {a b}, g a = g b → g (f a) = g (f b)) (hsame : first.map g = second.map g) :
    (replaceFirst p f first).map g = (replaceFirst p f second).map g := by
  induction first generalizing second with
  | nil => rw [List.map_eq_nil_iff.mp hsame.symm]
  | cons a rest ih =>
      obtain ⟨b, others, rfl, hhead, htail⟩ := List.map_eq_cons_iff.mp hsame.symm
      have hpick : p a = p b := by rw [← hp, ← hhead, hp]
      rw [replaceFirst, replaceFirst, hpick]
      split
      · rw [List.map_cons, List.map_cons, hf hhead, htail]
      · rw [List.map_cons, List.map_cons, hhead, ih htail.symm]

theorem map_swapErase (hp : ∀ a, p (g a) = p a) (list : List α) :
    (swapErase p list).map g = swapErase p (list.map g) := by
  induction list with
  | nil => rfl
  | cons a rest ih =>
      rw [List.map_cons, swapErase, swapErase, hp]
      split
      · rw [List.getLast?_map]
        cases rest.getLast? with
        | none => rfl
        | some last => rw [Option.map_some, List.map_cons, List.map_dropLast]
      · rw [List.map_cons, ih]

end Lists

end World

variable (hguise : Actor.Guise guise)

include hguise

theorem Shot.id_inGuise (shot : Shot) : (shot.inGuise guise).bullet.id = shot.bullet.id :=
  hguise.id shot.bullet.actor

namespace World

theorem map_withoutShot (shots : List Shot) (id : ActorId) :
    (withoutShot shots id).map (Shot.inGuise guise) =
      withoutShot (shots.map (Shot.inGuise guise)) id :=
  map_swapErase (fun shot => by rw [shot.id_inGuise hguise]) shots

theorem map_reap (shots : List Shot) :
    (reap shots).map (Shot.inGuise guise) = reap (shots.map (Shot.inGuise guise)) := by
  have hended : ((shots.map (Shot.inGuise guise)).filter isEnded).map (fun shot => shot.bullet.id) =
      (shots.filter isEnded).map fun shot => shot.bullet.id := by
    rw [List.filter_map, List.map_map]
    exact List.map_congr_left fun shot _ => shot.id_inGuise hguise
  rw [reap, reap, hended]
  exact (List.foldl_hom _ fun shots id => (map_withoutShot hguise shots id).symm).symm

theorem unit?_inGuise (world : World) (id : ActorId) :
    (world.inGuise guise).unit? id = (world.unit? id).map guise := by
  rw [unit?, inGuise, List.find?_map]
  simp only [Function.comp_def, hguise.id]
  rfl

theorem shot?_inGuise (world : World) (id : ActorId) :
    (world.inGuise guise).shot? id = (world.shot? id).map (Shot.inGuise guise) := by
  rw [shot?, inGuise, List.find?_map]
  simp only [Function.comp_def, Shot.id_inGuise hguise]
  rfl

theorem actor?_inGuise (world : World) (id : ActorId) :
    (world.inGuise guise).actor? id = (world.actor? id).map guise := by
  rw [actor?, actor?, unit?_inGuise hguise, shot?_inGuise hguise]
  cases world.unit? id with
  | some unit => rfl
  | none => cases world.shot? id <;> rfl

omit hguise in
theorem shown_inGuise {β : Type} {view : Actor → β}
    (hview : ∀ actor, view (guise actor) = view actor) (world : World) :
    (world.inGuise guise).shown view = world.shown view := by
  rw [shown_eq, shown_eq, inGuise, List.map_map, List.map_map]
  exact congrArg₂ _ (List.map_congr_left fun actor _ => hview actor)
    (List.map_congr_left fun shot _ => hview shot.bullet.actor)

omit hguise in
/-- The guise of actors whose visuals are overlooked does not show links. -/
theorem inGuise_setVisual {world next : World} {id : ActorId} {visual : Option VisualId}
    (hset : world.setVisual id visual = .ok next) :
    next.inGuise Actor.bare = world.inGuise Actor.bare := by
  rcases unit?_isSome_of_edit hset with ⟨-, rfl⟩ | ⟨-, -, rfl⟩
  · rw [inGuise, editUnit, map_replaceFirst fun _ => ?_]
    · rfl
    · rfl
  · rw [inGuise, editShot, map_replaceFirst fun _ => ?_]
    · rfl
    · rfl

theorem positions_inGuise (world : World) : (world.inGuise guise).positions = world.positions := by
  rw [positions, positions, inGuise]
  simp only [List.filter_map, List.map_map, Function.comp_def, Shot.inGuise, Bullet.inGuise,
    Bullet.id, hguise.id,
    hguise.position, hguise.active]
  rfl

theorem snapshot_inGuise (world : World) :
    (world.inGuise guise).snapshot =
      { world.snapshot with actors := world.snapshot.actors.map guise } := by
  have hactors : (world.inGuise guise).actors = world.actors.map guise := by
    rw [actors, actors, inGuise, List.map_append, List.map_map, List.map_map]
    rfl
  have hsorted : ∀ a ∈ world.actors, ∀ b ∈ world.actors,
      (!decide (b.id < a.id)) = !decide ((guise b).id < (guise a).id) := by
    intro a _ b _
    rw [hguise.id, hguise.id]
  rw [snapshot, snapshot, Snapshot.take, Snapshot.take, hactors, List.map_toArray]
  dsimp only
  rw [List.map_mergeSort (s := fun a b => !decide (b.id < a.id)) hsorted]
  rfl

/-! ## Operations on worlds that are alike -/

variable {first second : World}

omit hguise in
theorem Alike.same {β : Type} (halike : first.Alike guise second) (view : World → β)
    (hview : ∀ world, view (world.inGuise guise) = view world) : view first = view second := by
  rw [← hview first, show first.inGuise guise = second.inGuise guise from halike, hview]

omit hguise in
theorem Alike.retain (halike : first.Alike guise second) (change : World → World)
    (hchange : ∀ world, (change world).inGuise guise = change (world.inGuise guise)) :
    (change first).Alike guise (change second) := by
  rw [Alike, hchange, hchange]
  exact congrArg change halike

omit hguise in
theorem Alike.units (halike : first.Alike guise second) :
    first.units.map guise = second.units.map guise :=
  congrArg World.units halike

omit hguise in
theorem Alike.shots (halike : first.Alike guise second) :
    first.shots.map (Shot.inGuise guise) = second.shots.map (Shot.inGuise guise) :=
  congrArg World.shots halike

omit hguise in
theorem Alike.place (halike : first.Alike guise second) {units others : List Actor}
    (hunits : units.map guise = others.map guise) :
    Alike guise { first with units } { second with units := others } := by
  rw [Alike, inGuise, inGuise, hunits]
  exact congrArg (fun world => { world with units := others.map guise }) halike

omit hguise in
theorem Alike.load (halike : first.Alike guise second) {shots others : List Shot}
    (hshots : shots.map (Shot.inGuise guise) = others.map (Shot.inGuise guise)) :
    Alike guise { first with shots } { second with shots := others } := by
  rw [Alike, inGuise, inGuise, hshots]
  exact congrArg (fun world => { world with shots := others.map (Shot.inGuise guise) }) halike

omit hguise in
theorem Alike.enqueue (halike : first.Alike guise second) {effects others : List Effect}
    (htold : Effect.told effects = Effect.told others) :
    (first.enqueue effects).Alike guise (second.enqueue others) := by
  have hqueued : effects.filterMap Effect.queued? = others.filterMap Effect.queued? := by
    rw [← Effect.filterMap_queued?_told, htold, Effect.filterMap_queued?_told]
  rw [World.enqueue, World.enqueue, hqueued]
  exact halike.retain (fun world => { world with events := world.events ++ _ }) fun _ => rfl

theorem Alike.isSome_actor? (halike : first.Alike guise second) (id : ActorId) :
    (first.actor? id).isSome = (second.actor? id).isSome :=
  halike.same (fun world => (world.actor? id).isSome) fun world => by
    rw [actor?_inGuise hguise, Option.isSome_map]

theorem Alike.isSome_unit? (halike : first.Alike guise second) (id : ActorId) :
    (first.unit? id).isSome = (second.unit? id).isSome :=
  halike.same (fun world => (world.unit? id).isSome) fun world => by
    rw [unit?_inGuise hguise, Option.isSome_map]

theorem Alike.shot? (halike : first.Alike guise second) (id : ActorId) :
    (first.shot? id).map (Shot.inGuise guise) = (second.shot? id).map (Shot.inGuise guise) := by
  rw [← shot?_inGuise hguise, ← shot?_inGuise hguise]
  exact congrArg (fun world => world.shot? id) halike

theorem Alike.positions (halike : first.Alike guise second) : first.positions = second.positions :=
  halike.same _ (positions_inGuise hguise)

theorem Alike.snapshot (halike : first.Alike guise second) :
    { first.snapshot with actors := first.snapshot.actors.map guise } =
      { second.snapshot with actors := second.snapshot.actors.map guise } := by
  rw [← snapshot_inGuise hguise, ← snapshot_inGuise hguise]
  exact congrArg World.snapshot halike

theorem Alike.reindex (halike : first.Alike guise second) :
    first.reindex.Alike guise second.reindex := by
  rw [World.reindex, World.reindex, halike.positions hguise]
  exact halike.retain (fun world => { world with index := second.positions }) fun _ => rfl

theorem Alike.edit (halike : first.Alike guise second) (id : ActorId) (changes : List Actor.Edit) :
    Concur (Alike guise) (first.edit id changes) (second.edit id changes) := by
  have hedited : ∀ {a b : Actor}, guise a = guise b →
      guise (a.editAll changes) = guise (b.editAll changes) := by
    intro a b hsame
    rw [Actor.editAll, Actor.editAll]
    induction changes generalizing a b with
    | nil => exact hsame
    | cons change rest ih => exact ih (hguise.edit_congr hsame change)
  have hshot := congrArg Option.isSome (halike.shot? hguise id)
  rw [Option.isSome_map, Option.isSome_map] at hshot
  rw [World.edit, World.edit, halike.isSome_unit? hguise, hshot]
  split
  · refine .granted (halike.place ?_)
    exact map_replaceFirst_congr (fun actor => by rw [hguise.id]) hedited halike.units
  · split
    · refine .granted (halike.load ?_)
      refine map_replaceFirst_congr (fun shot => by rw [shot.id_inGuise hguise])
        (fun {a b} hsame => ?_) halike.shots
      have hactor := hedited (congrArg (fun shot : Shot => shot.bullet.actor) hsame)
      rw [Shot.inGuise, Shot.inGuise, Bullet.inGuise, Bullet.inGuise]
      dsimp only
      rw [hactor]
      exact congrArg (fun shot : Shot =>
        { shot with bullet := { shot.bullet with actor := guise (b.bullet.actor.editAll changes) } }) hsame
    · exact .refused _

theorem Alike.spawnActor (halike : first.Alike guise second) (actor : Actor) :
    Concur (Alike guise) (first.spawnActor actor) (second.spawnActor actor) := by
  rw [World.spawnActor, World.spawnActor, halike.isSome_actor? hguise]
  split
  · exact .refused _
  · refine .granted (halike.place ?_)
    rw [List.map_append, List.map_append, halike.units]

variable {hosts others : HostId → Context}

omit hguise in
theorem Alike.around (halike : first.Alike guise second) (hagree : HostsAgree hosts others) :
    (first.around hosts).Agree (second.around others) where
  index := halike.same World.index fun _ => rfl
  hosts := hagree

theorem Alike.spawnShot (halike : first.Alike guise second) (hagree : HostsAgree hosts others)
    (shot : Shot) (hbook : shot.book.GoesBy guise) :
    Concur (fun effects told => Effect.told effects = Effect.told told)
      (first.spawnShot hosts shot).1
        (second.spawnShot others shot).1 ∧
      (first.spawnShot hosts shot).2.Alike guise (second.spawnShot others shot).2 := by
  rw [World.spawnShot, World.spawnShot, halike.isSome_actor? hguise]
  split
  · exact ⟨.refused _, halike⟩
  · have hready := halike.reindex hguise
    have hhost : first.host = second.host := halike.same _ fun _ => rfl
    have hstarted := @Shot.perform_alike guise hguise { shot with bullet := subscribe shot.bullet }
      _ rfl hbook _ _
      (hready.around hagree) (.start (some (.world second.host)))
    dsimp only
    rw [hhost]
    generalize Shot.perform _ (first.reindex.around hosts) _ = firstDone at hstarted ⊢
    generalize Shot.perform _ (second.reindex.around others) _ = secondDone at hstarted ⊢
    obtain ⟨reply, started, effects⟩ := firstDone
    obtain ⟨_, other, told⟩ := secondDone
    obtain ⟨rfl, hshot, htold⟩ := hstarted
    have hjoined : Alike guise
        ({ first.reindex with shots := first.reindex.shots ++ [started] }.enqueue effects)
        ({ second.reindex with shots := second.reindex.shots ++ [other] }.enqueue told) := by
      refine (hready.load ?_).enqueue htold
      rw [List.map_append, List.map_append, hready.shots, List.map_singleton,
        List.map_singleton, hshot]
    cases reply with
    | refused refusal => exact ⟨.refused _, hready⟩
    | _ => exact ⟨.granted htold, hjoined⟩

theorem Alike.removeActor (halike : first.Alike guise second) (hagree : HostsAgree hosts others)
    (hgoes : first.GoesBy guise) (id : ActorId) :
    Concur (fun result told => result.1.Alike guise told.1 ∧
      Effect.told result.2 = Effect.told told.2)
      (first.removeActor hosts id) (second.removeActor others id) := by
  rw [World.removeActor, World.removeActor, halike.isSome_unit? hguise]
  split
  · refine .granted ⟨(halike.place ?_).reindex hguise, rfl⟩
    have hkept : ∀ units : List Actor, (units.filter fun unit => unit.id ≠ id).map guise =
        (units.map guise).filter fun unit => unit.id ≠ id := by
      intro units
      simp only [List.filter_map, Function.comp_def, hguise.id]
    rw [hkept, hkept, halike.units]
  · have hshot := halike.shot? hguise id
    cases hfirst : first.shot? id with
    | none =>
        rw [hfirst, Option.map_none, eq_comm, Option.map_eq_none_iff] at hshot
        rw [hshot]
        exact .refused _
    | some shot =>
        rw [hfirst, Option.map_some, eq_comm, Option.map_eq_some_iff] at hshot
        obtain ⟨other, hsecond, hsame⟩ := hshot
        rw [hsecond]
        have hbook := hgoes.scripts shot (List.mem_of_find?_eq_some hfirst)
        obtain ⟨-, -, htold⟩ := Shot.perform_alike hguise hsame.symm hbook (halike.around hagree)
          (.finish (some removed))
        refine .granted ⟨(Alike.enqueue (halike.load ?_) htold).reindex hguise, htold⟩
        rw [map_withoutShot hguise, map_withoutShot hguise, halike.shots]

/-! ## Ticks of worlds that are alike -/

theorem advanceShots_alike {around other : Surroundings} (hagree : around.Agree other)
    (dt : Float32) {shots later : List Shot}
    (hsame : shots.map (Shot.inGuise guise) = later.map (Shot.inGuise guise))
    (hscripts : ∀ shot ∈ shots, shot.book.GoesBy guise) :
    (advanceShots around dt shots).1.map (Shot.inGuise guise) =
        (advanceShots other dt later).1.map (Shot.inGuise guise) ∧
      Effect.told (advanceShots around dt shots).2 =
        Effect.told (advanceShots other dt later).2 := by
  induction shots generalizing later with
  | nil =>
      rw [List.map_eq_nil_iff.mp hsame.symm]
      exact ⟨rfl, rfl⟩
  | cons shot rest ih =>
      obtain ⟨head, tail, rfl, hhead, htail⟩ := List.map_eq_cons_iff.mp hsame.symm
      obtain ⟨-, hmoved, htold⟩ :=
        Shot.perform_alike hguise hhead.symm (hscripts shot List.mem_cons_self) hagree (.update dt)
      obtain ⟨hrest, heffects⟩ :=
        ih htail.symm fun later hlater => hscripts later (List.mem_cons_of_mem _ hlater)
      rw [advanceShots, advanceShots]
      dsimp only
      rw [List.map_cons, List.map_cons, hmoved, hrest, Effect.told_append, Effect.told_append,
        htold, heffects]
      exact ⟨rfl, rfl⟩

omit hguise in
theorem applyGameplay_alike {gameplay : List Gameplay} (dt : Float32)
    (hgoes : ∀ system ∈ gameplay, ∀ dt actor,
      guise (system dt (guise actor)) = guise (system dt actor))
    {units others : List Actor} (hsame : units.map guise = others.map guise) :
    (applyGameplay gameplay dt units).map guise = (applyGameplay gameplay dt others).map guise := by
  rw [applyGameplay, applyGameplay]
  induction gameplay generalizing units others with
  | nil => exact hsame
  | cons system rest ih =>
      apply ih fun later hlater => hgoes later (List.mem_cons_of_mem _ hlater)
      have hmoved : ∀ units : List Actor, (units.map (system dt)).map guise =
          (units.map guise).map fun actor => guise (system dt actor) := by
        intro units
        rw [List.map_map, List.map_map]
        exact List.map_congr_left fun actor _ => (hgoes system List.mem_cons_self dt actor).symm
      rw [hmoved, hmoved, hsame]

/-- The world of a tick before its bullets live on. -/
def played (world : World) (dt : Float32) : World :=
  { world with running := world.running + 1, units := applyGameplay world.gameplay dt world.units }.reindex

/-- The bullets that stay when a tick is over. -/
def kept (world : World) (shots : List Shot) : List Shot :=
  if world.reaps then reap shots else shots

omit hguise in
theorem runTick_eq (world : World) (hosts : HostId → Context) (dt : Float32) :
    world.runTick hosts dt =
      let done := advanceShots ((world.played dt).around hosts) dt world.shots
      ({ world.played dt with
          shots := world.kept done.1, tick := world.tick + 1,
          time := world.time + dt }.enqueue done.2,
        done.2) := rfl

theorem Alike.played (halike : first.Alike guise second) (hgoes : first.GoesBy guise)
    (dt : Float32) :
    (first.played dt).Alike guise (second.played dt) := by
  have hgameplay : first.gameplay = second.gameplay := halike.same _ fun _ => rfl
  have hunits : (applyGameplay first.gameplay dt first.units).map guise =
      (applyGameplay second.gameplay dt second.units).map guise := by
    rw [applyGameplay_alike dt hgoes.gameplay halike.units, hgameplay]
  exact ((halike.retain (fun world => { world with running := world.running + 1 })
    fun _ => rfl).place
    hunits).reindex hguise

theorem Alike.kept (halike : first.Alike guise second) {shots later : List Shot}
    (hsame : shots.map (Shot.inGuise guise) = later.map (Shot.inGuise guise)) :
    (first.kept shots).map (Shot.inGuise guise) = (second.kept later).map (Shot.inGuise guise) := by
  have hreaps : first.reaps = second.reaps := halike.same _ fun _ => rfl
  rw [World.kept, World.kept, hreaps]
  split
  · rw [map_reap hguise, map_reap hguise, hsame]
  · exact hsame

theorem Alike.runTick (halike : first.Alike guise second) (hgoes : first.GoesBy guise)
    (hagree : HostsAgree hosts others) (dt : Float32) :
    (first.runTick hosts dt).1.Alike guise (second.runTick others dt).1 ∧
      Effect.told (first.runTick hosts dt).2 = Effect.told (second.runTick others dt).2 := by
  have hplayed := halike.played hguise hgoes dt
  obtain ⟨hmoved, htold⟩ :=
    advanceShots_alike hguise (hplayed.around hagree) dt halike.shots hgoes.scripts
  have htick : first.tick = second.tick := halike.same _ fun _ => rfl
  have htime : first.time = second.time := halike.same _ fun _ => rfl
  rw [runTick_eq, runTick_eq, htick, htime]
  refine ⟨Alike.enqueue ?_ htold, htold⟩
  exact (hplayed.load (halike.kept hguise hmoved)).retain
    (fun world => { world with tick := second.tick + 1, time := second.time + dt }) fun _ => rfl

theorem Alike.runTicks (halike : first.Alike guise second) (hgoes : first.GoesBy guise)
    (hagree : HostsAgree hosts others) (dt : Float32) (count : Nat) :
    (runTicks hosts dt count first).1.Alike guise (runTicks others dt count second).1 ∧
      Effect.told (runTicks hosts dt count first).2 =
        Effect.told (runTicks others dt count second).2 := by
  induction count generalizing first second with
  | zero => exact ⟨halike, rfl⟩
  | succ count ih =>
      obtain ⟨htick, hfirst⟩ := halike.runTick hguise hgoes hagree dt
      have hnext := hgoes.inherits (List.forall_mem_nil _) (inherits_runTick first hosts dt)
      obtain ⟨hlast, hrest⟩ := ih htick hnext
      rw [World.runTicks, World.runTicks]
      dsimp only
      rw [Effect.told_append, Effect.told_append, hfirst, hrest]
      exact ⟨hlast, rfl⟩

/-- Both count the same number of ticks, or neither comes to an end. -/
theorem Alike.step? (halike : first.Alike guise second) (hgoes : first.GoesBy guise)
    (hagree : HostsAgree hosts others) (dt : Float32) :
    Option.Rel (fun result other => result.1 = other.1 ∧ result.2.1.Alike guise other.2.1 ∧
        Effect.told result.2.2 = Effect.told other.2.2)
      (first.step? hosts dt) (second.step? others dt) := by
  have hlength : Timing.tickLength first.timing = Timing.tickLength second.timing :=
    halike.same (fun world => Timing.tickLength world.timing) fun _ => rfl
  have haccumulator : first.accumulator = second.accumulator := halike.same _ fun _ => rfl
  rw [World.step?, World.step?, hlength, haccumulator]
  dsimp only
  split
  · exact .some ⟨rfl, halike, rfl⟩
  · split
    · exact .none
    · rename_i count left _
      obtain ⟨hworld, htold⟩ :=
        halike.runTicks hguise hgoes hagree (Timing.tickLength second.timing) count
      exact .some ⟨rfl, hworld.retain (fun world => { world with accumulator := left })
        fun _ => rfl, htold⟩

omit hguise in
theorem Alike.frameUpdate (halike : first.Alike guise second) (dt : Float32) :
    (first.frameUpdate dt).1.Alike guise (second.frameUpdate dt).1 ∧
      (first.frameUpdate dt).2 = (second.frameUpdate dt).2 := by
  have hclock : first.clock = second.clock := halike.same _ fun _ => rfl
  rw [World.frameUpdate, World.frameUpdate, hclock]
  split
  · exact ⟨halike, rfl⟩
  · exact ⟨halike.retain (fun world => { world with clock := some _ }) fun _ => rfl, rfl⟩

/-! ## Acts -/

omit hguise in
theorem answer_congr {α : Type} {R : α → α → Prop} {result other : Except Refusal α}
    (hconcur : Concur R result other) :
    answer result = answer other := by
  cases hconcur <;> rfl

/-- Worlds that are alike stay alike whatever is done to both, and it has the same answers and
effects. One case for each act. -/
theorem Alike.perform (halike : first.Alike guise second) (hgoes : first.GoesBy guise) {act : Act}
    (hact : act.GoesBy guise) :
    first.answer? act = second.answer? act ∧
      Option.Rel (fun result other => result.1.Alike guise other.1 ∧
        Effect.told result.2 = Effect.told other.2)
        (first.perform act) (second.perform act) := by
  cases act with
  | spawn actor =>
      have hspawn := halike.spawnActor hguise actor
      rw [World.perform, World.perform, World.answer?, World.answer?, answer_congr hspawn]
      refine ⟨rfl, ?_⟩
      generalize first.spawnActor actor = result at hspawn ⊢
      generalize second.spawnActor actor = other at hspawn ⊢
      cases hspawn with
      | refused refusal => exact .some ⟨halike, rfl⟩
      | granted hnext => exact .some ⟨hnext, rfl⟩
  | spawnShot hosts shot =>
      obtain ⟨hspawn, hnext⟩ :=
        halike.spawnShot hguise (.refl hosts) shot (hact shot.book (List.mem_singleton_self _))
      rw [World.perform, World.perform, World.answer?, World.answer?, answer_congr hspawn]
      refine ⟨rfl, ?_⟩
      generalize first.spawnShot hosts shot = result at hspawn hnext ⊢
      generalize second.spawnShot hosts shot = other at hspawn hnext ⊢
      obtain ⟨result, next⟩ := result
      obtain ⟨other, later⟩ := other
      cases hspawn with
      | refused refusal => exact .some ⟨hnext, rfl⟩
      | granted htold => exact .some ⟨hnext, htold⟩
  | remove hosts id =>
      have hremove := halike.removeActor hguise (.refl hosts) hgoes id
      rw [World.perform, World.perform, World.answer?, World.answer?, answer_congr hremove]
      refine ⟨rfl, ?_⟩
      generalize first.removeActor hosts id = result at hremove ⊢
      generalize second.removeActor hosts id = other at hremove ⊢
      cases hremove with
      | refused refusal => exact .some ⟨halike, rfl⟩
      | granted hnext => exact .some hnext
  | edit id changes =>
      have hedit := halike.edit hguise id changes
      rw [World.perform, World.perform, World.answer?, World.answer?, answer_congr hedit]
      refine ⟨rfl, ?_⟩
      generalize first.edit id changes = result at hedit ⊢
      generalize second.edit id changes = other at hedit ⊢
      cases hedit with
      | refused refusal => exact .some ⟨halike, rfl⟩
      | granted hnext => exact .some ⟨hnext, rfl⟩
  | step hosts dt =>
      have hstep := halike.step? hguise hgoes (.refl hosts) dt
      rw [World.perform, World.perform, World.answer?, World.answer?]
      generalize first.step? hosts dt = result at hstep ⊢
      generalize second.step? hosts dt = other at hstep ⊢
      cases hstep with
      | none => exact ⟨rfl, .none⟩
      | some hboth =>
          exact ⟨congrArg (fun count => some (Answer.ticks count)) hboth.1, .some hboth.2⟩
  | frameUpdate dt =>
      obtain ⟨hnext, heffects⟩ := halike.frameUpdate dt
      exact ⟨rfl, .some ⟨hnext, congrArg Effect.told heffects⟩⟩
  | drainEvents =>
      have hevents : first.events = second.events := halike.same _ fun _ => rfl
      refine ⟨congrArg (fun events => some (Answer.drained events)) hevents, .some ⟨?_, rfl⟩⟩
      exact halike.retain (fun world => { world with events := [] }) fun _ => rfl
  | setHost host =>
      exact ⟨rfl, .some ⟨halike.retain (fun world => { world with host }) fun _ => rfl, rfl⟩⟩
  | reset => exact ⟨rfl, .some ⟨halike.retain World.reset fun _ => rfl, rfl⟩⟩

end World

end Volley
