import Volley.Proofs.Session.Run
import Volley.Proofs.Session.Scripts

/-!
# Rendering does not interfere with the game

The render side writes back into the world: it links actors to visuals. But nothing that
advances the game looks at a link, so a host that only plays the game cannot tell which loads
have come in, or whether any have.
-/

namespace Volley

/-- A snapshot apart from the links of its actors. -/
def Snapshot.bare (snapshot : Snapshot) : Snapshot :=
  { snapshot with actors := snapshot.actors.map Actor.bare }

def Answer.ofRefusal? : Option Refusal → Answer
  | none => .done
  | some refusal => .refused refusal

namespace Session

variable {V W : Type}

/-- The answer to an act; a frame whose ticks never end is not answered. -/
def answer? (session : Session) : Act V → Option Answer
  | .loadLevel level terrain => some (.ofRefusal? (session.loadLevel (V := V) level terrain).1)
  | .frame outside now => (session.frame? outside now).map fun result => .ticks result.1
  | .fire hosts id blueprint faction position =>
      some (.ofRefusal? (session.fire (V := V) hosts id blueprint faction position).1)
  | .world act => session.world.answer? act
  | _ => some .done

/-- What a host that plays the game sees: after each act its answer and the world. An
act that never ends is the last. -/
def reports : Session → List (Act V) → List (Option Answer × Snapshot)
  | _, [] => []
  | session, act :: rest =>
      match session.perform act with
      | none => []
      | some (next, _) => (session.answer? act, next.world.snapshot.bare) :: next.reports rest

/-- The outside of a session that has no render side. -/
def unseen (outside : Outside V) : Outside Empty :=
  { hosts := outside.hosts, arrivals := fun _ => none, placeholder := fun _ => none }

/-- An act apart from what the render side has to do with it. -/
def Act.unseen : Act V → Act Empty
  | .loadLevel level terrain => .loadLevel level terrain
  | .frame outside now => .frame (Session.unseen outside) now
  | .fire hosts id blueprint faction position => .fire hosts id blueprint faction position
  | .pause => .pause
  | .resume => .resume
  | .stop => .stop
  | .setBook book => .setBook book
  | .showBlockedCells shown => .showBlockedCells shown
  | .showBuildCells shown => .showBuildCells shown
  | .world act => .world act

/-- Systems and scripts do not look at the links of actors. -/
structure OverlooksLinks (session : Session) : Prop where
  gameplay : ∀ system ∈ session.world.gameplay, ∀ dt actor,
    (system dt actor.bare).bare = (system dt actor).bare
  scripts : session.Carries (ScriptBook.GoesBy Actor.bare)

def Act.OverlooksLinks (act : Act V) : Prop :=
  ∀ book ∈ act.books, book.GoesBy Actor.bare

variable {first second before after : Session}

theorem OverlooksLinks.world
    (hoverlooks : before.OverlooksLinks) : before.world.GoesBy Actor.bare :=
  ⟨hoverlooks.gameplay, hoverlooks.scripts.world⟩

theorem OverlooksLinks.perform (hoverlooks : before.OverlooksLinks) {act : Act V}
    (hact : act.OverlooksLinks) {effects : List (SessionEffect V)}
    (hperform : before.perform act = some (after, effects)) :
    after.OverlooksLinks := by
  have hdeed := deed_perform hperform
  exact ⟨hdeed.gameplay ▸ hoverlooks.gameplay, hoverlooks.scripts.deed hact hdeed⟩

theorem books_unseen (act : Act V) : act.unseen.books = act.books := by
  cases act <;> rfl

/-! ## Sessions with the same game -/

section Same

variable (hgame : first.game = second.game)

include hgame

theorem same_of_game_eq {β : Type} (view : Session → β)
    (hview : ∀ session : Session, view session.game = view session) :
    view first = view second := by
  rw [← hview first, hgame, hview]

theorem world_alike_of_game_eq : first.world.Alike Actor.bare second.world :=
  congrArg Session.world hgame

/-- What depends on the game alone is the same for both. -/
theorem game_congr {after later : Session} (shown : Session → Session)
    (hafter : after.game = shown first.game)
    (hlater : later.game = shown second.game) : after.game = later.game := by
  rw [hafter, hgame, hlater]

theorem game_advance {world other : World} (hworld : world.Alike Actor.bare other) :
    ({ first with world } : Session).game = ({ second with world := other } : Session).game := by
  rw [game, game, show _ = _ from hworld]
  exact congrArg (fun session : Session => { session with world := other.inGuise Actor.bare }) hgame

theorem OverlooksLinks.of_game_eq (hfirst : first.OverlooksLinks) : second.OverlooksLinks where
  gameplay := by
    rw [← same_of_game_eq hgame (fun session => session.world.gameplay) fun _ => rfl]
    exact hfirst.gameplay
  scripts :=
    { world := fun shot hshot => by
        have hshots := (world_alike_of_game_eq hgame).shots
        have hmem : shot.inGuise Actor.bare ∈ first.world.shots.map (Shot.inGuise Actor.bare) := by
          rw [hshots]
          exact List.mem_map_of_mem hshot
        obtain ⟨other, hother, hsame⟩ := List.mem_map.mp hmem
        have hbook : other.book = shot.book := (congrArg Shot.book hsame :)
        rw [← hbook]
        exact hfirst.scripts.world other hother
      book := by
        rw [← same_of_game_eq hgame Session.book fun _ => rfl]
        exact hfirst.scripts.book
      programs := by
        rw [← same_of_game_eq hgame Session.programs fun _ => rfl]
        exact hfirst.scripts.programs }

/-! ## One act on both -/

/-- Sessions with the same game still have the same game when it is over, and
they have answered the same. -/
def InStep (result : Option (Session × List (SessionEffect V)))
    (other : Option (Session × List (SessionEffect W))) :
    Prop :=
  Option.Rel (fun result other => result.1.game = other.1.game) result other

omit hgame in
theorem InStep.done {result : Session × List (SessionEffect V)}
    {other : Session × List (SessionEffect W)}
    (hsame : result.1.game = other.1.game) : InStep (some result) (some other) :=
  .some hsame

theorem loadLevel_inStep (level : UInt32) (terrain : Option UInt32) :
    (first.loadLevel (V := V) level terrain).1 = (second.loadLevel (V := W) level terrain).1 ∧
      (first.loadLevel (V := V) level terrain).2.1.game =
        (second.loadLevel (V := W) level terrain).2.1.game := by
  have hcatalog : first.catalog = second.catalog := same_of_game_eq hgame _ fun _ => rfl
  have hreset : first.world.reset = second.world.reset :=
    same_of_game_eq hgame (fun session => session.world.reset) fun _ => rfl
  rw [loadLevel, loadLevel, hcatalog]
  cases second.catalog.levels.find? level with
  | none => exact ⟨rfl, hgame⟩
  | some found =>
      dsimp only
      cases second.catalog.terrains.find? (terrain.getD found.terrainId) with
      | none => exact ⟨rfl, hgame⟩
      | some ground =>
          dsimp only [clearVisuals, Binder.clear]
          rw [hreset]
          obtain ⟨refusal, world, notices⟩ := place level found.actors second.world.reset
          cases refusal with
          | some refusal =>
              exact ⟨rfl, game_advance hgame rfl⟩
          | none =>
              refine ⟨rfl, game_congr (game_advance hgame (rfl : world.Alike Actor.bare world))
                (fun session =>
                { session with
                  level := some found, terrain := some ground, lastFrame := none,
                  state := .running }) rfl rfl⟩

theorem frame?_inStep (hfirst : first.OverlooksLinks) (outside : Outside V) (now : Float) :
    Option.Rel (fun result other => result.1 = other.1 ∧ result.2.1.game = other.2.1.game)
      (first.frame? outside now) (second.frame? (unseen outside) now) := by
  have hstate : first.state = second.state := same_of_game_eq hgame _ fun _ => rfl
  have hlast : first.lastFrame = second.lastFrame := same_of_game_eq hgame _ fun _ => rfl
  have hmost : first.world.config.maxFrameDelta = second.world.config.maxFrameDelta :=
    same_of_game_eq hgame (fun session => session.world.config.maxFrameDelta) fun _ => rfl
  rw [frame?, frame?]
  by_cases hidle : second.state ≠ .running
  · rw [if_pos hidle, if_pos (hstate ▸ hidle)]
    exact .some ⟨rfl, hgame⟩
  · rw [if_neg hidle, if_neg (hstate ▸ hidle), hlast, hmost]
    have hstep := (world_alike_of_game_eq hgame).step? Actor.guise_bare hfirst.world
      (.refl outside.hosts)
      (frameDelta second.lastFrame now second.world.config.maxFrameDelta)
    dsimp only [unseen]
    generalize frameDelta second.lastFrame now second.world.config.maxFrameDelta = delta at hstep ⊢
    generalize first.world.step? outside.hosts delta = result at hstep ⊢
    generalize second.world.step? outside.hosts delta = other at hstep ⊢
    cases hstep with
    | none => exact .none
    | @some result other hsame =>
        obtain ⟨hcount, hworld, -⟩ := hsame
        refine .some ⟨hcount, ?_⟩
        have hadvanced := game_advance hgame (hworld.frameUpdate delta).1
        have hbefore :
            ({ first with
                world := (result.2.1.frameUpdate delta).1, lastFrame := some now } : Session).game =
              ({ second with
                world := (other.2.1.frameUpdate delta).1, lastFrame := some now } : Session).game :=
          game_congr hadvanced (fun session => { session with lastFrame := some now }) rfl rfl
        -- What is rendered is no part of the game.
        exact ((render_retouches outside _).game.trans hbefore).trans
          (render_retouches (unseen outside) _).game.symm

theorem fire_inStep (hfirst : first.OverlooksLinks) (hosts : HostId → Context) (id : ActorId)
    (blueprint faction : UInt32) (position : Vec3) :
    (first.fire (V := V) hosts id blueprint faction position).1 =
        (second.fire (V := W) hosts id blueprint faction position).1 ∧
      (first.fire (V := V) hosts id blueprint faction position).2.1.game =
        (second.fire (V := W) hosts id blueprint faction position).2.1.game := by
  have hfound : first.catalog.blueprints.find? blueprint =
      second.catalog.blueprints.find? blueprint :=
    same_of_game_eq hgame (fun session => session.catalog.blueprints.find? blueprint) fun _ => rfl
  rw [fire, fire, hfound]
  cases second.catalog.blueprints.find? blueprint with
  | none => exact ⟨rfl, hgame⟩
  | some found =>
      dsimp only
      have hprogram : first.program blueprint found = second.program blueprint found :=
        same_of_game_eq hgame (fun session => session.program blueprint found) fun _ => rfl
      have hprograms : first.programs.insert blueprint = second.programs.insert blueprint :=
        same_of_game_eq hgame (fun session => session.programs.insert blueprint) fun _ => rfl
      have hbook := hfirst.scripts.program blueprint found
      rw [hprogram] at hbook
      rw [hprogram, hprograms]
      generalize second.program blueprint found = compiled at hbook ⊢
      obtain ⟨program, book⟩ := compiled
      obtain ⟨hspawn, hworld⟩ :=
        (world_alike_of_game_eq hgame).spawnShot Actor.guise_bare (.refl hosts)
        ⟨.create id found faction position, program, book⟩ hbook
      dsimp only
      generalize first.world.spawnShot hosts _ = result at hspawn hworld ⊢
      generalize second.world.spawnShot hosts _ = other at hspawn hworld ⊢
      obtain ⟨result, next⟩ := result
      obtain ⟨other, later⟩ := other
      have hafter :
          ({ first with
              world := next
              programs := second.programs.insert blueprint (program, book) } : Session).game =
            ({ second with
              world := later
              programs := second.programs.insert blueprint (program, book) } : Session).game :=
        game_congr (game_advance hgame hworld)
          (fun session =>
            { session with programs := second.programs.insert blueprint (program, book) })
          rfl rfl
      cases hspawn with
      | refused refusal => exact ⟨rfl, hafter⟩
      | granted htold => exact ⟨rfl, hafter⟩

/-- One case for each act. -/
theorem perform_inStep (hfirst : first.OverlooksLinks) {act : Act V} (hact : act.OverlooksLinks) :
    first.answer? act = second.answer? act.unseen ∧
      InStep (first.perform act) (second.perform act.unseen) := by
  cases act with
  | loadLevel level terrain =>
      obtain ⟨hrefusal, hafter⟩ := loadLevel_inStep (V := V) (W := Empty) hgame level terrain
      exact ⟨congrArg (fun refusal => some (Answer.ofRefusal? refusal)) hrefusal, .done hafter⟩
  | frame outside now =>
      have hframe := frame?_inStep hgame hfirst outside now
      rw [perform, Act.unseen, perform, answer?, answer?]
      generalize first.frame? outside now = result at hframe ⊢
      generalize second.frame? (unseen outside) now = other at hframe ⊢
      cases hframe with
      | none => exact ⟨rfl, .none⟩
      | some hsame =>
          exact ⟨congrArg (fun count => some (Answer.ticks count)) hsame.1, .done hsame.2⟩
  | fire hosts id blueprint faction position =>
      obtain ⟨hrefusal, hafter⟩ :=
        fire_inStep (V := V) (W := Empty) hgame hfirst hosts id blueprint faction position
      exact ⟨congrArg (fun refusal => some (Answer.ofRefusal? refusal)) hrefusal, .done hafter⟩
  | pause =>
      exact ⟨rfl, .done (game_congr hgame pause (apply_ite game _ _ _) (apply_ite game _ _ _))⟩
  | resume =>
      exact ⟨rfl, .done (game_congr hgame resume (apply_ite game _ _ _) (apply_ite game _ _ _))⟩
  | stop =>
      have hreset : first.world.reset = second.world.reset :=
        same_of_game_eq hgame (fun session => session.world.reset) fun _ => rfl
      refine ⟨rfl, .done ?_⟩
      exact game_congr (game_advance hgame (congrArg (World.inGuise Actor.bare) hreset))
        (fun session => { session with lastFrame := none, state := .stopped }) rfl rfl
  | setBook book =>
      exact ⟨rfl, .done (game_congr hgame (fun session => session.setBook book) rfl rfl)⟩
  | showBlockedCells shown =>
      refine ⟨rfl, .done (game_congr hgame (fun session =>
        { session with overlay := { session.overlay with blockedCells := shown } }) rfl rfl)⟩
  | showBuildCells shown =>
      refine ⟨rfl, .done (game_congr hgame (fun session =>
        { session with overlay := { session.overlay with buildCells := shown } }) rfl rfl)⟩
  | world act =>
      obtain ⟨hanswer, hworld⟩ :=
        (world_alike_of_game_eq hgame).perform Actor.guise_bare hfirst.world hact
      refine ⟨hanswer, ?_⟩
      rw [perform, Act.unseen, perform]
      generalize first.world.perform act = result at hworld ⊢
      generalize second.world.perform act = other at hworld ⊢
      cases hworld with
      | none => exact .none
      | some hsame => exact .done (game_advance hgame hsame.1)

end Same

/-! ## Whole runs -/

theorem snapshot_bare_of_game_eq (hgame : first.game = second.game) :
    first.world.snapshot.bare = second.world.snapshot.bare :=
  (world_alike_of_game_eq hgame).snapshot Actor.guise_bare

theorem reports_unseen (hgame : first.game = second.game) (hfirst : first.OverlooksLinks)
    {acts : List (Act V)} (hacts : ∀ act ∈ acts, act.OverlooksLinks) :
    first.reports acts = second.reports (acts.map Act.unseen) := by
  induction acts generalizing first second with
  | nil => rfl
  | cons act rest ih =>
      have hact := hacts act List.mem_cons_self
      obtain ⟨hanswer, hstep⟩ := perform_inStep hgame hfirst hact
      have hoverlooks : ∀ after effects, first.perform act = some (after, effects) →
          after.OverlooksLinks :=
        fun _ _ => hfirst.perform hact
      rw [reports, List.map_cons, reports, hanswer]
      generalize first.perform act = result at hstep hoverlooks ⊢
      generalize second.perform act.unseen = other at hstep ⊢
      cases hstep with
      | none => rfl
      | @some result other hafter =>
          have hrest := ih hafter (hoverlooks result.1 result.2 rfl) fun later hlater =>
            hacts later (List.mem_cons_of_mem _ hlater)
          dsimp only
          rw [snapshot_bare_of_game_eq hafter, hrest]

/-- Two sessions with the same game, to which the same is done but for what comes in from the render
side, cannot be told apart by playing: every act is answered the same, leaves the same actors but
for their links, and ends in both or in neither. -/
theorem reports_eq_of_unseen_eq (hgame : first.game = second.game) (hfirst : first.OverlooksLinks)
    {acts : List (Act V)} {others : List (Act W)}
    (hunseen : acts.map Act.unseen = others.map Act.unseen)
    (hacts : ∀ act ∈ acts, act.OverlooksLinks) : first.reports acts = second.reports others := by
  have hothers : ∀ act ∈ others, act.OverlooksLinks := by
    intro act hmem
    have hsame : act.unseen ∈ acts.map Act.unseen := by
      rw [hunseen]
      exact List.mem_map_of_mem hmem
    obtain ⟨other, hother, heq⟩ := List.mem_map.mp hsame
    rw [Act.OverlooksLinks, ← books_unseen, ← heq, books_unseen]
    exact hacts other hother
  calc
    first.reports acts = first.reports (acts.map Act.unseen) := reports_unseen rfl hfirst hacts
    _ = first.reports (others.map Act.unseen) := by rw [hunseen]
    _ = second.reports others := (reports_unseen hgame.symm (hfirst.of_game_eq hgame) hothers).symm

/-! In the campaign it does not matter for the game whether the archer's visual comes in. -/

theorem overlooksLinks_opening : opening.OverlooksLinks where
  gameplay _ hsystem := nomatch hsystem
  scripts := ⟨List.forall_mem_nil _, ScriptBook.goesBy_empty _, nofun⟩

/-- Two frames of the first level, after which the archer is removed. -/
def playing (outside : Outside String) : List (Act String) :=
  [.loadLevel 1 none, .frame outside 0, .frame outside 0.016, archerLeaves, .world .drainEvents]

theorem playing_reports_eq :
    (opening.reports (playing waiting)).length = 5 ∧
      opening.reports (playing answering) = opening.reports (playing waiting) := by
  refine ⟨by decide +kernel, reports_eq_of_unseen_eq rfl overlooksLinks_opening rfl ?_⟩
  simp [playing, archerLeaves, Act.OverlooksLinks, Act.books, World.Act.books]

end Session

end Volley
