import Volley.World

/-!
# Who listens to a bullet

That a bullet emits an event is told whoever listens. What its listeners make of the event is
another matter: the queue of a world takes each event of a kind once as long as it is subscribed to
the kind, and it can be unsubscribed like any other listener.
-/

namespace Volley

namespace Effect

/-- The effects by which the life of a bullet is told: the events that it
emits, and what a host is told. -/
def isPublic : Effect → Bool
  | .emitted _ => true
  | .endReported _ _ _ => true
  | _ => false

def publics (effects : List Effect) : List Effect :=
  effects.filter isPublic

/-- The effects by which it is told that a bullet has started or ended. -/
def isMilestone (id : ActorId) : Effect → Bool
  | .emitted (.started bullet) => bullet = id
  | .emitted (.ended bullet _) => bullet = id
  | .endReported _ bullet _ => bullet = id
  | _ => false

def milestones (id : ActorId) (effects : List Effect) : List Effect :=
  effects.filter (isMilestone id)

/-- What listeners make of an event. -/
def isReaction : Effect → Bool
  | .heard _ _ _ => true
  | .queued _ => true
  | .noticed _ => true
  | _ => false

@[simp]
theorem publics_append (first rest : List Effect) :
    publics (first ++ rest) = publics first ++ publics rest :=
  List.filter_append ..

@[simp]
theorem milestones_append (id : ActorId) (first rest : List Effect) :
    milestones id (first ++ rest) = milestones id first ++ milestones id rest :=
  List.filter_append ..

theorem milestones_publics (id : ActorId) (effects : List Effect) :
    milestones id (publics effects) = milestones id effects := by
  rw [milestones, publics, List.filter_filter, milestones]
  refine List.filter_congr fun effect _ => ?_
  cases effect with
  | emitted event => exact Bool.and_true _
  | endReported host bullet reason => exact Bool.and_true _
  | _ => rfl

theorem publics_reactions {effects : List Effect}
    (hreactions : ∀ effect ∈ effects, effect.isReaction) :
    publics effects = [] := by
  refine List.filter_eq_nil_iff.mpr fun effect heffect hpublic => ?_
  have hreaction := hreactions effect heffect
  cases effect with
  | emitted event => cases hreaction
  | endReported host bullet reason => cases hreaction
  | _ => cases hpublic

end Effect

theorem Listener.isReaction_of_mem_effects {listener : Listener} {event : BulletEvent}
    {effect : Effect} (hmem : effect ∈ listener.effects event) : effect.isReaction := by
  rw [effects] at hmem
  cases hear : listener.ear with
  | queue =>
      rw [hear] at hmem
      rw [List.mem_singleton.mp hmem]
      rfl
  | host respond =>
      rw [hear] at hmem
      rcases List.mem_cons.mp hmem with rfl | hanswer
      · rfl
      · cases hresponse : respond listener.heard event <;> rw [hresponse] at hanswer
        · cases hanswer
        all_goals
          rw [List.mem_singleton.mp hanswer]
          rfl

theorem Listener.queued_effects (listener : Listener) (event : BulletEvent) :
    (listener.effects event).filterMap Effect.queued? = if listener.ear.isQueue then [event]
      else [] := by
  rw [effects]
  cases listener.ear with
  | queue => rfl
  | host respond =>
      dsimp only
      cases respond listener.heard event <;> rfl

namespace Emitter

theorem isReaction_of_mem_emit {emitter : Emitter} {event : BulletEvent} {effect : Effect}
    (hmem : effect ∈ (emitter.emit event).2) : effect.isReaction := by
  obtain ⟨listener, -, heffect⟩ := List.mem_flatMap.mp hmem
  exact Listener.isReaction_of_mem_effects heffect

/-- How many queues take the events of a kind. -/
def queues (emitter : Emitter) (kind : EventKind) : Nat :=
  emitter.listeners.countP fun listener => listener.kind = kind && listener.ear.isQueue

theorem queues_on (emitter : Emitter) (kind : EventKind) (ear : Ear) (other : EventKind) :
    (emitter.on kind ear).1.queues other = emitter.queues other + if kind = other ∧
      ear.isQueue then 1 else 0 := by
  rw [queues, on, List.countP_append, queues, List.countP_singleton]
  simp only [Bool.and_eq_true, decide_eq_true_eq]

@[simp]
theorem queues_on_host (emitter : Emitter) (kind : EventKind)
    (respond : List BulletEvent → BulletEvent → Response) (other : EventKind) :
    (emitter.on kind (.host respond)).1.queues other = emitter.queues other := by
  rw [queues_on, if_neg (by simp [Ear.isQueue]), Nat.add_zero]

theorem queues_off_le (emitter : Emitter) (kind : EventKind) (id : ListenerId) (other : EventKind) :
    (emitter.off kind id).1.queues other ≤ emitter.queues other := by
  rw [queues, off, List.countP_filter, queues]
  refine List.countP_mono_left fun listener _ htaken => ?_
  rw [Bool.and_eq_true] at htaken
  exact htaken.1

/-- Where no queue is unsubscribed from a kind, its events are taken as before. -/
theorem queues_off {emitter : Emitter} {kind other : EventKind} {id : ListenerId}
    (hspared : emitter.queueAt kind id = true → kind ≠ other) :
    (emitter.off kind id).1.queues other = emitter.queues other := by
  rw [queues, off, List.countP_filter, queues]
  refine List.countP_congr fun listener hlistener => ?_
  simp only [Bool.and_eq_true, decide_eq_true_eq, Bool.not_eq_true']
  refine and_iff_left_of_imp fun ⟨hkind, hqueue⟩ => Bool.eq_false_iff.mpr fun hanswers => ?_
  have hsame : listener.kind = kind := (of_decide_eq_true hanswers).1
  refine hspared (List.any_eq_true.mpr ⟨listener, hlistener, ?_⟩) (hsame.symm.trans hkind)
  rw [hanswers, hqueue]
  rfl

@[simp]
theorem queues_emit (emitter : Emitter) (event : BulletEvent) (other : EventKind) :
    (emitter.emit event).1.queues other = emitter.queues other := by
  rw [queues, emit, List.countP_map, queues]
  refine List.countP_congr fun listener _ => ?_
  rw [Function.comp_apply]
  split <;> rfl

/-- Every queue takes an event once. -/
theorem queued_emit (emitter : Emitter) (event : BulletEvent) :
    (emitter.emit event).2.filterMap Effect.queued? =
      List.replicate (emitter.queues event.kind) event := by
  rw [emit, queues]
  dsimp only
  induction emitter.listeners with
  | nil => rfl
  | cons listener rest ih =>
      rw [List.countP_cons]
      by_cases hkind : listener.kind = event.kind
      · rw [List.filter_cons_of_pos (by simpa using hkind), List.flatMap_cons,
          List.filterMap_append, ih,
          listener.queued_effects]
        cases listener.ear.isQueue with
        | true => simp [hkind, List.replicate_succ]
        | false => simp
      · rw [List.filter_cons_of_neg (by simpa using hkind), ih]
        simp [hkind]

end Emitter

/-- A world listens to every kind of event of its bullets. -/
theorem World.queues_subscribe (bullet : Bullet) (kind : EventKind) :
    (subscribe bullet).emitter.queues kind = bullet.emitter.queues kind + 1 := by
  rw [subscribe]
  simp only [EventKind.all, List.foldl_cons, List.foldl_nil, Emitter.queues_on]
  cases kind <;> simp [Ear.isQueue]

end Volley
