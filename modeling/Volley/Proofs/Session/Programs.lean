import Volley.Proofs.Session.Renewal
import Volley.Proofs.World.Origin

/-!
# The programs that bullets fly with

A session keeps the programs that it has compiled, also when the shot that asked for one
fails and when another level is loaded. No one can tell: every bullet is fired as if its
program were compiled at the call, with the scripts that were set last, and what it was fired
with it keeps, whatever is set later.
-/

namespace Volley

namespace Session

variable {V : Type} {before after session : Session} {act : Act V}
  {effects : List (SessionEffect V)}

/-! ## What is set -/

/-- The scripts of the moment once an act is over. -/
def Act.bookAfter (book : ScriptBook) : Act V → ScriptBook
  | .setBook later => later
  | _ => book

/-- The scripts that were set last. -/
def bookSet : List (Moment V) → ScriptBook
  | [] => .empty
  | moment :: earlier => moment.act.bookAfter (bookSet earlier)

theorem book_perform (hperform : before.perform act = some (after, effects)) :
    after.book = act.bookAfter before.book := by
  have hdeed := deed_perform hperform
  cases act with
  | setBook book =>
      cases hperform
      rfl
  | _ => exact hdeed.book nofun

variable {world : World} {catalog : Catalog} {history : List (Moment V)}

theorem Run.book_eq
    (hrun : Run (create world catalog) history session) : session.book = bookSet history := by
  induction hrun with
  | start => rfl
  | next hrun hperform ih => rw [book_perform hperform, ih, bookSet]

theorem Run.catalog_eq
    (hrun : Run (create world catalog) history session) : session.catalog = catalog := by
  induction hrun with
  | start => rfl
  | next hrun hperform ih => exact (catalog_perform hperform).trans ih

/-! ## Shots without a memory -/

/-- Fires a bullet into a world, with a program that is compiled on the spot. -/
def fireAfresh (catalog : Catalog) (book : ScriptBook) (world : World) (hosts : HostId → Context)
    (id : ActorId) (blueprintId faction : UInt32)
    (position : Vec3) : Option Refusal × World × List Effect :=
  match catalog.blueprints.find? blueprintId with
  | none => (some (.blueprintNotFound blueprintId), world, [])
  | some blueprint =>
      match world.spawnShot hosts (.create id blueprint book faction position) with
      | (.error refusal, next) => (some refusal, next, [])
      | (.ok told, next) => (none, next, told)

theorem Coherent.shot (hcoherent : session.Coherent) {blueprintId : UInt32} {blueprint : Blueprint}
    (hblueprint : session.catalog.blueprints.find? blueprintId = some blueprint) (id : ActorId)
    (faction : UInt32) (position : Vec3) :
    session.shot id blueprintId blueprint faction position =
      .create id blueprint session.book faction position := by
  rw [Session.shot, hcoherent.program hblueprint]
  rfl

/-- The programs that a coherent session keeps show in nothing but themselves. -/
theorem Coherent.fire_eq_fireAfresh (hcoherent : session.Coherent) (hosts : HostId → Context)
    (id : ActorId) (blueprintId faction : UInt32) (position : Vec3) :
    let (refusal, world, told) :=
      fireAfresh session.catalog session.book session.world hosts id blueprintId faction position
    ∃ programs, session.fire (V := V) hosts id blueprintId faction position =
      (refusal, { session with world, programs }, told.map .world) := by
  rw [Session.fire, fireAfresh]
  cases hblueprint : session.catalog.blueprints.find? blueprintId with
  | none => exact ⟨session.programs, rfl⟩
  | some blueprint =>
      dsimp only
      rw [hcoherent.program hblueprint, Shot.create]
      generalize session.world.spawnShot hosts _ = result
      obtain ⟨outcome, world⟩ := result
      cases outcome with
      | ok told => exact ⟨_, rfl⟩
      | error refusal => exact ⟨_, rfl⟩

/-! ## What bullets were fired with -/

/-- The bullet that an act hands to the world, and the contexts that it may ask,
if programs are compiled afresh. -/
def Act.handed (catalog : Catalog) (book : ScriptBook) : Act V → Option ((HostId → Context) × Shot)
  | .fire hosts id blueprintId faction position =>
      (catalog.blueprints.find? blueprintId).map fun blueprint =>
        (hosts, .create id blueprint book faction position)
  | .world (.spawnShot hosts shot) => some (hosts, shot)
  | _ => none

end Session

/-- The bullet that a moment brings into the world. -/
def Moment.launched {V : Type} (catalog : Catalog) (book : ScriptBook)
    (moment : Moment V) : Option Shot :=
  match moment.act.handed catalog book with
  | none => none
  | some (hosts, shot) =>
      if (moment.before.world.spawnShot hosts shot).1.isOk then some shot else none

namespace Session

variable {V : Type} {before after session : Session} {act : Act V}
  {effects : List (SessionEffect V)} {world : World} {catalog : Catalog} {history : List (Moment V)}

/-- The program and the scripts of the bullet that was fired last under an id. -/
def firedWith (catalog : Catalog) (id : ActorId) : List (Moment V) → Option (Program × ScriptBook)
  | [] => none
  | moment :: earlier =>
      match (moment.launched catalog (bookSet earlier)).filter fun shot => shot.bullet.id = id with
      | some shot => some (shot.program, shot.book)
      | none => firedWith catalog id earlier

theorem Retouches.orders (hretouches : Retouches before after) :
    after.world.shots.map Shot.orders = before.world.shots.map Shot.orders :=
  hretouches.alike.same (fun world => world.shots.map Shot.orders) fun world => by
    rw [World.inGuise, List.map_map]
    rfl

/-- A bullet has the orders that it had before the act, or the act has brought it in with them. -/
theorem Coherent.orders_perform (hcoherent : before.Coherent)
    (hperform : before.perform act = some (after, effects)) {shot : Shot}
    (hshot : shot ∈ after.world.shots) :
    (∃ old ∈ before.world.shots, shot.orders = old.orders) ∨
      ∃ young, Moment.launched before.catalog before.book ⟨act, before, after,
        effects⟩ = some young ∧
        shot.orders = young.orders := by
  have hdeed := deed_perform hperform
  cases hdeed with
  | kept hframe hkeeps hworld hbinder hbook hprograms => exact Or.inl ⟨shot, hworld ▸ hshot, rfl⟩
  | cleared hclears hworld hdistinct hbinder hbook hprograms =>
      rw [hworld] at hshot
      cases hshot
  | fired hosts id hblueprint faction position told =>
      rw [hcoherent.shot hblueprint] at hshot
      rcases (World.Deed.fired hosts _).orders hshot with hold | ⟨_, young, hact, hok, horders⟩
      · exact Or.inl hold
      · cases hact
        refine Or.inr ⟨_, ?_, horders⟩
        rw [Moment.launched, Act.handed, hblueprint]
        exact if_pos hok
  | acted hdeed told =>
      rcases hdeed.orders hshot with hold | ⟨hosts, young, rfl, hok, horders⟩
      · exact Or.inl hold
      · exact Or.inr ⟨young, if_pos hok, horders⟩
  | @rendered hrunning outside now delta count stepped first hstep clock told =>
      have hmem : shot.orders ∈
          ((before.ticked stepped clock now).render outside).1.world.shots.map Shot.orders :=
        List.mem_map_of_mem hshot
      rw [(render_retouches outside _).orders] at hmem
      obtain ⟨middle, hmiddle, hsame⟩ := List.mem_map.mp hmem
      rcases (World.Deed.stepped hstep).orders hmiddle
        with ⟨old, hold, horders⟩ | ⟨_, _, hact, -, -⟩
      · exact Or.inl ⟨old, hold, hsame.symm.trans horders⟩
      · cases hact

/-- A bullet is brought in under an id that no other one goes by. -/
theorem ne_of_launched {book : ScriptBook} {moment : Moment V} {young : Shot}
    (hlaunched : moment.launched catalog book = some young) :
    ∀ old ∈ moment.before.world.shots, old.bullet.id ≠ young.bullet.id := by
  rw [Moment.launched] at hlaunched
  split at hlaunched
  · cases hlaunched
  · split at hlaunched
    · rename_i hok
      cases hlaunched
      exact World.ne_of_spawnShot_isOk hok
    · cases hlaunched

/-- Every bullet still has what it was fired with, or what it had when the run began. -/
theorem Run.keeps_orders (hrun : Run (create world catalog) history session) :
    ∀ shot ∈ session.world.shots,
      firedWith catalog shot.bullet.id history = some (shot.program, shot.book) ∨
        firedWith catalog shot.bullet.id history = none ∧
        ∃ old ∈ world.shots, shot.orders = old.orders := by
  induction hrun with
  | start => exact fun shot hshot => Or.inr ⟨rfl, shot, hshot, rfl⟩
  | @next history before after act effects hrun hperform ih =>
      intro shot hshot
      have hcases := hrun.coherent.orders_perform hperform hshot
      rw [hrun.catalog_eq, hrun.book_eq] at hcases
      rw [firedWith]
      rcases hcases with ⟨old, hold, horders⟩ | ⟨young, hlaunched, horders⟩
      · -- The moment cannot have brought in another bullet under the same id.
        obtain ⟨hid, hprogram, hbook⟩ := Shot.orders_eq_iff.mp horders
        have hnone : ((Moment.launched catalog (bookSet history) ⟨act, before, after,
            effects⟩).filter
            fun young => young.bullet.id = shot.bullet.id) = none := by
          rw [Option.filter_eq_none_iff]
          intro young hlaunched hsame
          exact ne_of_launched hlaunched old hold (hid ▸ (of_decide_eq_true hsame).symm)
        rw [hnone, horders, hid, hprogram, hbook]
        exact ih old hold
      · obtain ⟨hid, hprogram, hbook⟩ := Shot.orders_eq_iff.mp horders
        rw [hlaunched, Option.filter_some, if_pos (decide_eq_true hid.symm), hprogram, hbook]
        exact Or.inl rfl

/-- Whatever has been set, loaded and fired, with success or without, a bullet is fired as if its
program were compiled at the call from the catalog's blueprint, with the scripts that were set last,
and bullets that were fired earlier keep what they were fired with. -/
theorem Run.programs_never_stale (hrun : Run (create world catalog) history session) :
    (∀ hosts id blueprintId faction position,
      let (refusal, world, told) :=
        fireAfresh catalog (bookSet history) session.world hosts id blueprintId faction position
      ∃ programs, session.fire (V := V) hosts id blueprintId faction position =
        (refusal, { session with world, programs }, told.map .world)) ∧
      ∀ shot ∈ session.world.shots,
        firedWith catalog shot.bullet.id history = some (shot.program, shot.book) ∨
          firedWith catalog shot.bullet.id history = none ∧
          ∃ old ∈ world.shots, shot.orders = old.orders := by
  refine ⟨fun hosts id blueprintId faction position => ?_, hrun.keeps_orders⟩
  rw [← hrun.catalog_eq, ← hrun.book_eq]
  exact hrun.coherent.fire_eq_fireAfresh hosts id blueprintId faction position

/-! Bullets that salute as they are fired. What they say is changed between
two shots, and a third shot fails. -/

def saluting (word : String) : ScriptBook :=
  { conditions := .empty, actions := .ofList [("salute",
      fun _ _ => .one (.signal (.string word)))] }

def flare : Blueprint :=
  let salute : Clause := { tag := "custom", params := .object [("name", .string "salute")] }
  let launch : Rule := { cue := .bulletStart, params := none, conditions := none, actions := some [salute] }
  { id := 2, name := "flare", description := none, modelId := "flare"
    segments := [{ id := 1, name := none, rules := [launch], conditions := none,
                   actions := none }] }

/-- The campaign, in which flares may be fired. -/
def signalling : Session :=
  create (World.create .standard).1 { campaign with blueprints := .ofList [(2, flare)] }

def fireFlare (id : ActorId) : Act String :=
  .fire waiting.hosts id 2 0 .zero

def hailSet : Moment String :=
  signalling.moment (.setBook (saluting "hail"))

def hailShot : Moment String :=
  hailSet.after.moment (fireFlare ⟨1⟩)

def farewellSet : Moment String :=
  hailShot.after.moment (.setBook (saluting "farewell"))

/-- The first flare is still there. -/
def refusedShot : Moment String :=
  farewellSet.after.moment (fireFlare ⟨1⟩)

def farewellShot : Moment String :=
  refusedShot.after.moment (fireFlare ⟨2⟩)

def salutes : List (Moment String) :=
  [farewellShot, refusedShot, farewellSet, hailShot, hailSet]

/-- The words that are signalled at a moment. -/
def wordsOf (moment : Moment String) : List String :=
  moment.effects.filterMap fun effect =>
    match effect with
    | .world (.signalled (.string word)) => some word
    | _ => none

theorem run_salutes : Run signalling salutes farewellShot.after := by
  have hset : Run signalling [hailSet] hailSet.after := Run.start.moment rfl
  have hshot : Run signalling [hailShot, hailSet] hailShot.after := hset.moment rfl
  have hrefused : Run signalling [refusedShot, farewellSet, hailShot, hailSet] refusedShot.after :=
    (hshot.moment rfl).moment rfl
  exact hrefused.moment rfl

theorem salutes_never_stale :
    Run signalling salutes farewellShot.after ∧
      [hailShot, refusedShot, farewellShot].map wordsOf = [["hail"], [], ["farewell"]] ∧
      (farewellShot.after.world.shots.map fun shot => shot.bullet.id) = [⟨1⟩, ⟨2⟩] ∧
      (∀ hosts id blueprintId faction position,
        let (refusal, world, told) :=
          fireAfresh signalling.catalog (bookSet salutes) farewellShot.after.world hosts id
            blueprintId faction position
        ∃ programs, farewellShot.after.fire (V := String) hosts id blueprintId faction position =
          (refusal, { farewellShot.after with world, programs }, told.map .world)) ∧
      ∀ shot ∈ farewellShot.after.world.shots,
        firedWith signalling.catalog shot.bullet.id salutes = some (shot.program, shot.book) ∨
          firedWith signalling.catalog shot.bullet.id salutes = none ∧
            ∃ old ∈ signalling.world.shots, shot.orders = old.orders :=
  ⟨run_salutes, by decide +kernel, by decide +kernel, run_salutes.programs_never_stale⟩

end Session

end Volley
