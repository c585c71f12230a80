import Volley.Proofs.Bullet.Lifecycle

/-!
# What a queue hears of a bullet

Of the steps that a bullet takes, one kind emits an event, and a queue that takes its kind
hears it once. One other kind unsubscribes listeners, and if a queue is among them, that is
told. So a queue hears nothing but what is emitted, in the same order, and it misses nothing
but what it has been unsubscribed from.
-/

namespace Volley

/-- A choice of bullets and kinds of events. -/
abbrev Watch := ActorId → EventKind → Bool

namespace Watch

variable {watch : Watch} {told more : List Effect}

def sees (watch : Watch) (event : BulletEvent) : Bool :=
  watch event.bullet event.kind

/-- No queue has been unsubscribed from what is watched. -/
def Intact (watch : Watch) (told : List Effect) : Prop :=
  ∀ id kind, (id, kind) ∈ told.filterMap Effect.unqueued? → watch id kind = false

/-- A queue has heard nothing but what was emitted, and all of it that is watched. -/
structure Relayed (watch : Watch) (told : List Effect) : Prop where
  sublist : (told.filterMap Effect.queued?).Sublist (told.filterMap Effect.emitted?)
  exact : (told.filterMap Effect.queued?).filter watch.sees =
    (told.filterMap Effect.emitted?).filter watch.sees

theorem Intact.of_subset (hintact : watch.Intact more)
    (hsubset : told ⊆ more) : watch.Intact told :=
  fun id kind hmem => hintact id kind (List.filterMap_subset _ hsubset hmem)

theorem Relayed.append (hfirst : watch.Relayed told)
    (hsecond : watch.Relayed more) : watch.Relayed (told ++ more) where
  sublist := by
    rw [List.filterMap_append, List.filterMap_append]
    exact hfirst.sublist.append hsecond.sublist
  exact := by
    rw [List.filterMap_append, List.filterMap_append, List.filter_append,
      List.filter_append, hfirst.exact,
      hsecond.exact]

/-- What neither emits an event nor has to do with a queue. -/
theorem Relayed.silent (hqueued : told.filterMap Effect.queued? = [])
    (hemitted : told.filterMap Effect.emitted? = []) :
    watch.Relayed told where
  sublist := by
    rw [hqueued]
    exact List.nil_sublist _
  exact := by rw [hqueued, hemitted]

end Watch

/-- No queue takes an event of the bullet twice, and one takes every event that is watched. -/
structure Bullet.Overheard (watch : Watch) (bullet : Bullet) : Prop where
  single : ∀ kind, bullet.emitter.queues kind ≤ 1
  watched : ∀ kind, watch bullet.id kind = true → bullet.emitter.queues kind = 1

theorem Bullet.Overheard.congr {watch : Watch} {before after : Bullet}
    (hoverheard : before.Overheard watch) (hid : after.id = before.id)
    (hqueues : after.emitter.queues = before.emitter.queues) : after.Overheard watch where
  single kind := by
    rw [hqueues]
    exact hoverheard.single kind
  watched kind hwatched := by
    rw [hqueues]
    exact hoverheard.watched kind (hid ▸ hwatched)

/-- If no queue listens to a bullet yet, then after a world has subscribed one
queue takes everything. -/
theorem World.overheard_subscribe {bullet : Bullet}
    (hunheard : ∀ kind, bullet.emitter.queues kind = 0)
    (watch : Watch) : (subscribe bullet).Overheard watch := by
  have hone : ∀ kind, (subscribe bullet).emitter.queues kind = 1 :=
    fun kind => by rw [queues_subscribe, hunheard]
  exact ⟨fun kind => Nat.le_of_eq (hone kind), fun kind _ => hone kind⟩

namespace Turn

/-- The turns tell more and more, and a queue that listens before hears what
is emitted meanwhile. -/
structure Hears (told : List Effect) (before after : Turn) : Prop where
  effects : after.effects = before.effects ++ told
  id : after.bullet.id = before.bullet.id
  relays : ∀ watch : Watch, watch.Intact told → before.bullet.Overheard watch →
    after.bullet.Overheard watch ∧ watch.Relayed told

def Heeds (before after : Turn) : Prop :=
  ∃ told, Hears told before after

variable {told more : List Effect} {first second third before after : Turn}

theorem Hears.trans (hfirst : Hears told first second) (hsecond : Hears more second third) :
    Hears (told ++ more) first third where
  effects := by rw [hsecond.effects, hfirst.effects, List.append_assoc]
  id := hsecond.id.trans hfirst.id
  relays watch hintact hoverheard := by
    obtain ⟨hmiddle, htold⟩ :=
      hfirst.relays watch (hintact.of_subset (List.subset_append_left _ _)) hoverheard
    obtain ⟨hlast, hmore⟩ := hsecond.relays watch
      (hintact.of_subset (List.subset_append_right _ _)) hmiddle
    exact ⟨hlast, htold.append hmore⟩

namespace Heeds

theorem trans (hfirst : Heeds first second) (hsecond : Heeds second third) : Heeds first third := by
  obtain ⟨told, htold⟩ := hfirst
  obtain ⟨more, hmore⟩ := hsecond
  exact ⟨told ++ more, htold.trans hmore⟩

/-- A step that leaves the emitter alone and says nothing about a queue. -/
theorem silent (heffects : after.effects = before.effects ++ told)
    (hid : after.bullet.id = before.bullet.id)
    (hemitter : after.bullet.emitter = before.bullet.emitter)
    (hqueued : told.filterMap Effect.queued? = [])
    (hemitted : told.filterMap Effect.emitted? = []) : Heeds before after := by
  refine ⟨told, heffects, hid, fun watch _ hoverheard => ⟨?_, .silent hqueued hemitted⟩⟩
  exact hoverheard.congr hid (congrArg Emitter.queues hemitter)

theorem set (turn : Turn) {bullet : Bullet} (hid : bullet.id = turn.bullet.id)
    (hemitter : bullet.emitter = turn.bullet.emitter) : turn.Heeds { turn with bullet } :=
  silent (List.append_nil _).symm hid hemitter rfl rfl

theorem refl (turn : Turn) : turn.Heeds turn :=
  set turn rfl rfl

theorem record (turn : Turn) {effect : Effect} (hqueued : effect.queued? = none)
    (hemitted : effect.emitted? = none) :
    turn.Heeds (turn.record effect) :=
  silent rfl rfl rfl (List.filterMap_cons_none hqueued) (List.filterMap_cons_none hemitted)

theorem aside (turn : Turn) (effect : Effect) (haside : effect.Aside turn.bullet.id) :
    turn.Heeds (turn.record effect) := by
  cases effect with
  | noticed notice => exact record turn rfl rfl
  | damageCaused host request applied => exact record turn rfl rfl
  | _ => exact haside.elim

theorem emit (turn : Turn) {event : BulletEvent} (hown : event.bullet = turn.bullet.id) :
    turn.Heeds (turn.emit event) := by
  let told := Effect.emitted event :: (turn.bullet.emitter.emit event).2
  have hqueued : told.filterMap Effect.queued? =
      List.replicate (turn.bullet.emitter.queues event.kind) event := by
    rw [List.filterMap_cons_none rfl, Emitter.queued_emit]
  have hreactions : (turn.bullet.emitter.emit event).2.filterMap Effect.emitted? = [] := by
    refine List.filterMap_eq_nil_iff.mpr fun effect heffect => ?_
    have hreaction := Emitter.isReaction_of_mem_emit heffect
    cases effect with
    | emitted event => cases hreaction
    | _ => rfl
  have hemitted : told.filterMap Effect.emitted? = [event] := congrArg (event :: ·) hreactions
  refine ⟨told, rfl, rfl, fun watch _ hoverheard => ⟨hoverheard.congr rfl ?_, ?_, ?_⟩⟩
  · exact funext fun kind => turn.bullet.emitter.queues_emit event kind
  · rw [hqueued, hemitted]
    exact (List.replicate_sublist_replicate event).mpr (hoverheard.single event.kind)
  · rw [hqueued, hemitted]
    cases hsees : watch.sees event with
    | true =>
        rw [hoverheard.watched event.kind (hown ▸ hsees)]
        rfl
    | false => simp [hsees]

theorem on (turn : Turn) (kind : EventKind) (respond : List BulletEvent → BulletEvent → Response) :
    turn.Heeds { turn with
      bullet := { turn.bullet with
                  emitter := (turn.bullet.emitter.on kind (.host respond)).1 } } := by
  refine ⟨[], (List.append_nil _).symm, rfl,
    fun watch _ hoverheard => ⟨hoverheard.congr rfl ?_, .silent rfl rfl⟩⟩
  exact funext fun other => turn.bullet.emitter.queues_on_host kind respond other

/-- If a queue is unsubscribed, then from nothing that is watched. -/
theorem off (fire : Fire) (turn : Turn) (kind : EventKind) (listener : ListenerId) :
    turn.Heeds ((Call.off kind listener).perform fire turn).2 := by
  refine ⟨_, rfl, rfl, fun watch hintact hoverheard =>
    ⟨⟨fun other => ?_, fun other hwatched => ?_⟩, ?_⟩⟩
  · exact Nat.le_trans (turn.bullet.emitter.queues_off_le kind listener other)
      (hoverheard.single other)
  · refine (Emitter.queues_off fun hqueue => ?_).trans (hoverheard.watched other hwatched)
    rintro rfl
    rw [if_pos hqueue] at hintact
    exact Bool.false_ne_true ((hintact turn.bullet.id kind (List.mem_singleton_self _)).symm.trans
      hwatched)
  · cases turn.bullet.emitter.queueAt kind listener <;> exact .silent rfl rfl

theorem routine : Routine Heeds where
  refl := refl
  trans := trans
  aside := aside
  launch turn _ := set turn rfl rfl
  advance turn _ _ := set turn rfl rfl
  age turn _ := set turn rfl rfl
  move turn displacement :=
    set turn (turn.bullet.id_move displacement) (turn.bullet.emitter_move displacement)

theorem tellEnd (turn : Turn) (reason : Option EndReason) : turn.Heeds (turn.tellEnd reason) := by
  have hown : (BulletEvent.ended turn.bullet.id reason).bullet = turn.bullet.id := rfl
  have hemitted := emit turn hown
  rw [Turn.tellEnd]
  split
  · exact hemitted.trans (record _ rfl rfl)
  · exact hemitted

variable {fire : Fire} (hfire : ∀ cue turn, Heeds turn (fire cue turn)) (turn : Turn)

include hfire

theorem start {link : Option Link} {started : Turn} (hstart : turn.start fire link = .ok started) :
    turn.Heeds started := by
  rw [start_eq] at hstart
  split at hstart
  · have hopened : turn.Heeds (turn.opened link) := set turn (turn.bullet.actor.edit_id _) rfl
    have hfired := hopened.trans (hfire .bulletStart _)
    cases hstart
    split
    · exact hfired.trans (emit _ rfl)
    · exact hfired
  · cases hstart

theorem finish (reason : Option EndReason) : turn.Heeds (turn.finish fire reason) := by
  rw [finish_eq]
  split
  · have hclosed : turn.Heeds (turn.closed reason) := set turn (turn.bullet.actor.edit_id _) rfl
    exact hclosed.trans ((hfire .bulletEnd _).trans (tellEnd _ reason))
  · exact refl turn

end Heeds

theorem Heeds.calls : Call.Keep (fun _ => True) Heeds where
  host := Heeds.routine.host fun turn _ _ => .emit turn rfl
  perform {fire} hfire {call} _ turn := by
    cases call with
    | start link =>
        rw [Call.perform]
        split
        · rename_i started hstart
          exact .start hfire turn hstart
        · exact .refl turn
    | update dt =>
        exact Heeds.routine.update hfire (fun reason turn => .finish hfire turn reason) dt turn
    | finish reason => exact .finish hfire turn reason
    | edit change => exact .set turn (turn.bullet.actor.edit_id change) rfl
    | fly order => exact Heeds.routine.fly turn order
    | damage order => exact Heeds.routine.damage turn order
    | announce segment cue => exact .emit turn rfl
    | on kind respond => exact .on turn kind respond
    | off kind listener => exact .off fire turn kind listener
    | signal value => exact .record turn rfl rfl

end Turn

/-- A call from outside, with the rules that run within it: a queue that listens hears what is
emitted, and goes on listening to what is watched as long as it is not unsubscribed from it. -/
theorem Shot.perform_relays {watch : Watch} {shot : Shot} (hoverheard : shot.bullet.Overheard watch)
    {around : Surroundings} {call : Call} (hintact : watch.Intact (shot.perform around call).2.2) :
    (shot.perform around call).2.1.bullet.Overheard watch ∧
      watch.Relayed (shot.perform around call).2.2 := by
  obtain ⟨told, hhears⟩ := perform_keeps Turn.Heeds.calls shot.book.within_true around
    call.within_true
  rw [show (shot.perform around call).2.2 = told from hhears.effects] at hintact ⊢
  exact hhears.relays watch hintact hoverheard

end Volley
