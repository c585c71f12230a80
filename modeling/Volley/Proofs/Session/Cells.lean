import Volley.Session
import Volley.Proofs.Visual.Binder
import Volley.Proofs.World.Guise
import Volley.Proofs.World.Snapshot

/-!
# Rendering, actor by actor

A frame walks through the actors, and what it does for one of them depends on what the session holds
for that actor alone: its cell. So the render side can be read as one small machine for each actor,
and the steps of the walk that belong to other actors do not matter.
-/

namespace Volley

/-- The state and the pending load of an actor's visual, and the link of the
actor itself, if there is one. -/
structure Cell where
  state : Option LoadState
  pending : Option PendingLoad
  link : Option (Option VisualId)

def Cell.linked (cell : Cell) (visual : Option VisualId) : Cell :=
  { cell with link := cell.link.map fun _ => visual }

/-- Nothing that the binder has for the actor stands in the way of a load. -/
def Cell.Idle (cell : Cell) : Prop :=
  cell.state = none ∨ cell.state = some .cancelled

/-- The actor is linked to nothing but what the binder holds for it. -/
def Cell.Recorded (cell : Cell) : Prop :=
  ∀ visual, cell.link = some (some visual) → cell.state = some (.resolved visual)

namespace Session

variable {V α : Type}

def cell (session : Session) (id : ActorId) : Cell :=
  { state := session.binder.states.find? id, pending := session.binder.pending.find? id
    link := (session.world.actor? id).map Actor.visual }

theorem cell_state (session : Session) (id : ActorId) :
    (session.cell id).state = session.binder.states.find? id := rfl

/-- A session without what belongs to the render side: visuals, loads, links
and the overlay's flag. -/
def game (session : Session) : Session :=
  { session with world := session.world.inGuise Actor.bare, binder := .empty, loads := 0, overlayChanged := false }

/-- Nothing differs but binder, loads, links and the overlay's flag. -/
structure Retouches (before after : Session) : Prop where
  game : after.game = before.game
  loads : before.loads ≤ after.loads
  ordered : before.binder.Ordered → after.binder.Ordered

theorem Retouches.refl (session : Session) : Retouches session session :=
  ⟨rfl, Nat.le_refl _, id⟩

theorem Retouches.trans {first second third : Session} (hfirst : Retouches first second)
    (hsecond : Retouches second third) : Retouches first third where
  game := hsecond.game.trans hfirst.game
  loads := Nat.le_trans hfirst.loads hsecond.loads
  ordered := hsecond.ordered ∘ hfirst.ordered

theorem retouches_binder {session : Session} {binder : Binder}
    (hordered : session.binder.Ordered → binder.Ordered) :
    Retouches session { session with binder } :=
  ⟨rfl, Nat.le_refl _, hordered⟩

section Game

variable {before after : Session} (hretouches : Retouches before after)

include hretouches

theorem Retouches.alike : after.world.Alike Actor.bare before.world :=
  congrArg Session.world hretouches.game

theorem Retouches.bare (id : ActorId) :
    (after.world.actor? id).map Actor.bare = (before.world.actor? id).map Actor.bare := by
  rw [← World.actor?_inGuise Actor.guise_bare, ← World.actor?_inGuise Actor.guise_bare]
  exact congrArg (fun world => world.actor? id) hretouches.alike

theorem Retouches.ids : after.world.shown Actor.id = before.world.shown Actor.id :=
  hretouches.alike.same _ (World.shown_inGuise fun _ => rfl)

theorem Retouches.gameplay : after.world.gameplay = before.world.gameplay :=
  hretouches.alike.same _ fun _ => rfl

theorem Retouches.books : after.world.shots.map Shot.book = before.world.shots.map Shot.book :=
  hretouches.alike.same (fun world => world.shots.map Shot.book) fun world => by
    rw [World.inGuise, List.map_map]
    rfl

theorem Retouches.catalog : after.catalog = before.catalog :=
  (congrArg Session.catalog hretouches.game :)

theorem Retouches.book : after.book = before.book :=
  (congrArg Session.book hretouches.game :)

theorem Retouches.programs : after.programs = before.programs :=
  (congrArg Session.programs hretouches.game :)

theorem Retouches.state : after.state = before.state :=
  (congrArg Session.state hretouches.game :)

theorem Retouches.lastFrame : after.lastFrame = before.lastFrame :=
  (congrArg Session.lastFrame hretouches.game :)

theorem Retouches.actor?_isSome (id : ActorId) :
    (after.world.actor? id).isSome = (before.world.actor? id).isSome :=
  hretouches.alike.isSome_actor? Actor.guise_bare id

theorem Retouches.shows_iff (id : ActorId) : after.world.Shows id ↔ before.world.Shows id := by
  have hactive : ∀ session : Session, session.world.Shows id ↔
      ∃ actor, (session.world.actor? id).map Actor.bare = some actor ∧ actor.active = true := by
    intro session
    rw [World.Shows]
    cases session.world.actor? id <;> simp [Actor.bare]
  rw [hactive, hactive, hretouches.bare id]

end Game

/-! ## Walks -/

/-- How a walk comes to an item: the steps before it have not touched its cell,
and those after it do not either. -/
structure Meets (step : Session → α → Session × List (SessionEffect V)) (key : α → ActorId)
    (list : List α) (session : Session) (item : α) (middle : Session) : Prop where
  retouches : Retouches session middle
  before : middle.cell (key item) = session.cell (key item)
  after : (forEach step list session).1.cell (key item) = (step middle item).1.cell (key item)
  effects : (step middle item).2 ⊆ (forEach step list session).2

section Walk

variable {step : Session → α → Session × List (SessionEffect V)} {key : α → ActorId}

theorem forEach_cell_of_not_mem {id : ActorId}
    (hother : ∀ session item, key item ≠ id → (step session item).1.cell id = session.cell id)
    {list : List α} (hlist : ∀ item ∈ list, key item ≠ id) (session : Session) :
    (forEach step list session).1.cell id = session.cell id := by
  induction list generalizing session with
  | nil => rfl
  | cons item rest ih =>
      rw [forEach]
      have hrest := ih (fun later hlater => hlist later (List.mem_cons_of_mem _ hlater))
        (step session item).1
      exact hrest.trans (hother session item (hlist item List.mem_cons_self))

theorem exists_step_of_mem_forEach {list : List α} {session : Session} {effect : SessionEffect V}
    (heffect : effect ∈ (forEach step list session).2) :
    ∃ item ∈ list, ∃ middle, effect ∈ (step middle item).2 := by
  induction list generalizing session with
  | nil => cases heffect
  | cons first rest ih =>
      rcases List.mem_append.mp heffect with hfirst | hrest
      · exact ⟨first, List.mem_cons_self, session, hfirst⟩
      · obtain ⟨item, hitem, middle, hmem⟩ := ih hrest
        exact ⟨item, List.mem_cons_of_mem _ hitem, middle, hmem⟩

theorem forEach_keeps {P : Session → Prop}
    (hstep : ∀ session item, P session → P (step session item).1) (list : List α)
    {session : Session} (hsession : P session) : P (forEach step list session).1 := by
  induction list generalizing session with
  | nil => exact hsession
  | cons item rest ih => exact ih (hstep session item hsession)

theorem forEach_retouches (hstep : ∀ session item, Retouches session (step session item).1)
    (list : List α) (session : Session) : Retouches session (forEach step list session).1 :=
  forEach_keeps (fun middle item hmiddle => hmiddle.trans (hstep middle item)) list (.refl session)

variable
  (hother : ∀ id session item, key item ≠ id → (step session item).1.cell id = session.cell id)
  (hstep : ∀ session item, Retouches session (step session item).1)

include hother hstep

omit hstep in
theorem meets_head {item : α} {rest : List α} (hnodup : ((item :: rest).map key).Nodup)
    (session : Session) :
    Meets step key (item :: rest) session item session := by
  rw [List.map_cons, List.nodup_cons] at hnodup
  refine ⟨.refl session, rfl, ?_, fun effect heffect => List.mem_append_left _ heffect⟩
  refine forEach_cell_of_not_mem (hother (key item)) ?_ (step session item).1
  intro later hlater heq
  exact hnodup.1 (List.mem_map.mpr ⟨later, hlater, heq⟩)

theorem Meets.cons {first item : α} {rest : List α} {session middle : Session}
    (hnodup : ((first :: rest).map key).Nodup) (hmem : item ∈ rest)
    (hmeets : Meets step key rest (step session first).1 item middle) :
    Meets step key (first :: rest) session item middle := by
  rw [List.map_cons, List.nodup_cons] at hnodup
  have hne : key first ≠ key item := fun heq => hnodup.1 (List.mem_map.mpr ⟨item, hmem, heq.symm⟩)
  exact ⟨(hstep session first).trans hmeets.retouches,
    hmeets.before.trans (hother _ session first hne), hmeets.after,
    fun effect heffect => List.mem_append_right _ (hmeets.effects heffect)⟩

theorem exists_meets {list : List α} (hnodup : (list.map key).Nodup) {item : α} (hmem : item ∈ list)
    (session : Session) : ∃ middle, Meets step key list session item middle := by
  induction list generalizing session with
  | nil => cases hmem
  | cons first rest ih =>
      rcases List.mem_cons.mp hmem with rfl | hlater
      · exact ⟨session, meets_head hother hnodup session⟩
      · obtain ⟨middle, hmeets⟩ := ih (List.nodup_cons.mp hnodup).2 hlater (step session first).1
        exact ⟨middle, hmeets.cons hother hstep hnodup hlater⟩

theorem exists_meets_of_effect {list : List α} (hnodup : (list.map key).Nodup) {session : Session}
    {effect : SessionEffect V} (heffect : effect ∈ (forEach step list session).2) :
    ∃ item ∈ list, ∃ middle, Meets step key list session item middle ∧
      effect ∈ (step middle item).2 := by
  induction list generalizing session with
  | nil => cases heffect
  | cons first rest ih =>
      rcases List.mem_append.mp heffect with hfirst | hrest
      · exact ⟨first, List.mem_cons_self, session, meets_head hother hnodup session, hfirst⟩
      · obtain ⟨item, hitem, middle, hmeets, hmem⟩ := ih (List.nodup_cons.mp hnodup).2 hrest
        exact ⟨item, List.mem_cons_of_mem _ hitem, middle,
          hmeets.cons hother hstep hnodup hitem, hmem⟩

end Walk

/-! ## Links -/

theorem link_cell (session : Session) (id other : ActorId) (visual : Option VisualId)
    (notice : Refusal → Notice) :
    (session.link (V := V) id visual notice).1.cell other =
      if id = other then (session.cell other).linked visual else session.cell other := by
  rw [link]
  cases hedit : session.world.setVisual id visual with
  | ok world =>
      have hlook : world.actor? other = _ := World.actor?_edit hedit
      by_cases hother : id = other
      · subst hother
        rw [if_pos rfl] at hlook ⊢
        rw [cell, cell, Cell.linked, hlook, Option.map_map, Option.map_map]
        rfl
      · rw [if_neg hother] at hlook ⊢
        rw [cell, cell, hlook]
  | error refusal =>
      have hmissing : session.world.actor? id = none := by
        rw [← Option.not_isSome_iff_eq_none, ← World.edit_isOk_iff]
        rintro ⟨next, hok⟩
        rw [World.setVisual, hok] at hedit
        cases hedit
      by_cases hother : id = other
      · subst hother
        rw [if_pos rfl, Cell.linked, cell, hmissing]
        rfl
      · rw [if_neg hother]

theorem link_retouches (session : Session) (id : ActorId) (visual : Option VisualId)
    (notice : Refusal → Notice) :
    Retouches session (session.link (V := V) id visual notice).1 := by
  rw [link]
  cases hset : session.world.setVisual id visual with
  | error refusal => exact .refl session
  | ok world =>
      refine ⟨?_, Nat.le_refl _, fun hordered => hordered⟩
      rw [game, game, World.inGuise_setVisual hset]

@[simp]
theorem link_binder (session : Session) (id : ActorId) (visual : Option VisualId)
    (notice : Refusal → Notice) :
    (session.link (V := V) id visual notice).1.binder = session.binder := by
  rw [link]
  split <;> rfl

theorem call?_link (session : Session) (id : ActorId) (visual : Option VisualId)
    (notice : Refusal → Notice) :
    ∀ effect ∈ (session.link (V := V) id visual notice).2, ∃ told, effect = .world told := by
  rw [link]
  cases session.world.setVisual id visual with
  | ok world => exact fun _ hmem => absurd hmem List.not_mem_nil
  | error refusal => exact fun effect hmem => ⟨_, List.mem_singleton.mp hmem⟩

end Session

end Volley
