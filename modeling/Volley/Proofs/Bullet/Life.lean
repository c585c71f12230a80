import Volley.Script
import Volley.Proofs.Actor
import Volley.Proofs.Program

/-!
# What the life of a bullet keeps

Whatever happens to a bullet is made of few steps: it tells something, its actor is edited, or
something else about it is set. A relation that these keep is kept by every operation, however deep
the operations nest. So a view of the actor that none of the edits shows stays the same, and all
that a bullet tells is about itself.
-/

namespace Volley

/-- A call makes no change to the actor but the allowed ones. -/
def Call.Within (allowed : Actor.Edit → Prop) : Call → Prop
  | .edit change => allowed change
  | _ => True

def Script.Within (allowed : Actor.Edit → Prop) : Script → Prop
  | .done => True
  | .call first next => first.Within allowed ∧ ∀ reply bullet, (next reply bullet).Within allowed

/-- No script of the book makes a change to an actor but the allowed ones. -/
def ScriptBook.Within (allowed : Actor.Edit → Prop) (book : ScriptBook) : Prop :=
  ∀ name action, book.actions.find? name = some action →
    ∀ params bullet, (action params bullet).Within allowed

theorem Call.within_true (call : Call) : call.Within fun _ => True := by
  cases call <;> trivial

theorem Script.within_true (script : Script) : script.Within fun _ => True := by
  induction script with
  | done => trivial
  | call first next ih => exact ⟨first.within_true, ih⟩

theorem Script.Within.mono {allowed more : Actor.Edit → Prop}
    (hmore : ∀ change, allowed change → more change) {script : Script}
    (hwithin : script.Within allowed) : script.Within more := by
  induction script with
  | done => trivial
  | call first next ih =>
      refine ⟨?_, fun reply bullet => ih reply bullet (hwithin.2 reply bullet)⟩
      cases first with
      | edit change => exact hmore change hwithin.1
      | _ => trivial

theorem ScriptBook.Within.mono {allowed more : Actor.Edit → Prop}
    (hmore : ∀ change, allowed change → more change) {book : ScriptBook}
    (hwithin : book.Within allowed) : book.Within more :=
  fun name action haction params bullet => (hwithin name action haction params bullet).mono hmore

theorem ScriptBook.within_true (book : ScriptBook) : book.Within fun _ => True :=
  fun _ _ _ _ _ => Script.within_true _

theorem ScriptBook.within_empty
    (allowed : Actor.Edit → Prop) : ScriptBook.empty.Within allowed := by
  intro name action haction
  cases haction

/-- An effect that names a bullet names this one. -/
def Effect.Of (id : ActorId) : Effect → Prop
  | .emitted event => event.bullet = id
  | .heard _ _ event => event.bullet = id
  | .queued event => event.bullet = id
  | .unqueued bullet _ => bullet = id
  | .endReported _ bullet _ => bullet = id
  | .damageCaused _ request _ => request.attacker = id
  | _ => True

theorem Emitter.of_mem_emit {emitter : Emitter} {event : BulletEvent} {effect : Effect}
    (hmem : effect ∈ (emitter.emit event).2) : effect.Of event.bullet := by
  obtain ⟨listener, -, heffect⟩ := List.mem_flatMap.mp hmem
  rw [Listener.effects] at heffect
  split at heffect
  · rw [List.mem_singleton.mp heffect]
    rfl
  · rcases List.mem_cons.mp heffect with rfl | hrest
    · rfl
    · split at hrest
      · cases hrest
      all_goals
        rw [List.mem_singleton.mp hrest]
        trivial

/-- An effect of an order: a note, or a request for damage that the bullet itself makes. -/
def Effect.Aside (id : ActorId) : Effect → Prop
  | .noticed _ => True
  | .damageCaused _ request _ => request.attacker = id
  | _ => False

theorem Effect.Aside.of {id : ActorId} {effect : Effect}
    (haside : effect.Aside id) : effect.Of id := by
  cases effect with
  | noticed notice => trivial
  | damageCaused host request applied => exact haside
  | _ => exact haside.elim

namespace Turn

/-! ## What a bullet does by itself -/

/-- A relation between a turn before and a turn after that a bullet keeps as long as it neither
starts nor ends nor publishes an event. -/
structure Routine (R : Turn → Turn → Prop) : Prop where
  refl : ∀ turn, R turn turn
  trans : ∀ {first second third}, R first second → R second third → R first third
  aside : ∀ turn effect, effect.Aside turn.bullet.id → R turn (turn.record effect)
  launch : ∀ turn flight, R turn
    { turn with bullet := { turn.bullet with flight := some flight, guide := turn.bullet.link } }
  advance : ∀ turn next, turn.bullet.flight.isSome → R turn
    { turn with bullet := { turn.bullet with flight := some next } }
  age : ∀ turn elapsed, R turn { turn with bullet := { turn.bullet with elapsed } }
  move : ∀ turn displacement, R turn { turn with bullet := turn.bullet.move displacement }

/-- What a flight under way makes of a bullet that has aged. -/
def pursue (fire : Fire) (flight : Flight) (dt : Float32) (turn : Turn) : Turn :=
  let (next, step) := flight.update (turn.bullet.guidance turn.around) turn.bullet.actor.position dt
  let flown : Turn := { turn with bullet := { turn.bullet with flight := some next } }
  match step with
  | .moved displacement => { flown with bullet := flown.bullet.move displacement }
  | .hit => if flight.plan.stopOnHit then finish fire (some .hit) (fire .bulletHit flown) else flown
  | .targetLost => if flight.plan.stopOnHit then finish fire (some .targetLost) flown else flown
  | .inactive => flown

/-- What a step of a flight leads to. -/
def stepped (fire : Fire) (flight : Flight) (turn : Turn) : Flight.Step → Turn
  | .moved displacement => { turn with bullet := turn.bullet.move displacement }
  | .hit => if flight.plan.stopOnHit then finish fire (some .hit) (fire .bulletHit turn) else turn
  | .targetLost => if flight.plan.stopOnHit then finish fire (some .targetLost) turn else turn
  | .inactive => turn

theorem pursue_eq {fire : Fire} {flight next : Flight} {dt : Float32} {turn : Turn}
    {step : Flight.Step}
    (hstep : flight.update (turn.bullet.guidance turn.around) turn.bullet.actor.position dt =
      (next, step)) :
    turn.pursue fire flight dt =
      ({ turn with bullet := { turn.bullet with flight := some next } } : Turn).stepped fire
        flight step := by
  rw [pursue, hstep]
  cases step <;> rfl

def older (turn : Turn) (dt : Float32) : Turn :=
  { turn with bullet := { turn.bullet with elapsed := turn.bullet.elapsed + dt } }

theorem update_eq (turn : Turn) (fire : Fire) (dt : Float32)
    (hactive : turn.bullet.phase = .active) :
    turn.update fire dt =
      match turn.bullet.flight with
      | none => turn.older dt
      | some flight => if !flight.active then turn.older dt
          else (turn.older dt).pursue fire flight dt := by
  rw [update, if_neg (not_not_intro hactive)]
  rfl

section Routine

variable {R : Turn → Turn → Prop} (hR : Routine R)

include hR

theorem Routine.note (turn : Turn) (notice : Notice) : R turn (turn.note notice) :=
  hR.aside turn (.noticed notice) trivial

theorem Routine.fly (turn : Turn) (order : FlyOrder) : R turn (turn.fly order) := by
  rw [Turn.fly]
  dsimp only
  split
  · exact hR.note turn _
  · exact hR.launch turn _

theorem Routine.strike (turn : Turn) (order : DamageOrder) (link : Link) (target : ActorId) :
    R turn (turn.strike order link target) := by
  rw [Turn.strike]
  dsimp only
  split
  · exact hR.note turn _
  · cases link.host? with
    | none =>
        dsimp only
        split
        · exact hR.refl turn
        · exact hR.note turn _
    | some host =>
        dsimp only
        generalize (link.context turn.around).damage _ = applied
        have hasked : R turn (turn.record (.damageCaused host
            { attacker := turn.bullet.id, target, amount := (damageOf order).toUInt32 } applied)) :=
          hR.aside turn _ rfl
        cases applied with
        | some value => exact hasked
        | none => exact hR.trans hasked (hR.note _ _)

theorem Routine.damage (turn : Turn) (order : DamageOrder) : R turn (turn.damage order) := by
  rw [Turn.damage]
  dsimp only
  split
  · exact hR.note turn _
  · split
    · exact hR.note turn _
    · split
      · exact hR.note turn _
      · have hfirst : R turn (if order.key.isSome then turn.note (.damageKeyIgnored turn.bullet.id)
            else turn) := by
          split
          · exact hR.note turn _
          · exact hR.refl turn
        generalize (if order.key.isSome then turn.note (.damageKeyIgnored turn.bullet.id)
          else turn) = keyed at hfirst ⊢
        refine hR.trans (hR.trans hfirst ?_) (hR.strike _ order _ _)
        split
        · exact hR.note keyed _
        · exact hR.refl keyed

theorem Routine.obeys : TriggerHost.Obeys R where
  refl := hR.refl
  trans := hR.trans
  orderFlight order turn := hR.fly turn order
  orderDamage order turn := hR.damage turn order
  note notice turn := hR.note turn notice

/-- Every order of a program to a bullet keeps the relation if its announcements do. -/
theorem Routine.host
    (hannounce : ∀ turn segment cue, R turn (turn.emit (.ruleFired turn.bullet.id segment cue))) :
    TriggerHost.Keeps R where
  toObeys := hR.obeys
  announce segment cue turn := hannounce turn segment cue

variable {fire : Fire} (hfire : ∀ cue turn, R turn (fire cue turn))
  (hfinish : ∀ reason turn, R turn (turn.finish fire reason))

include hfire hfinish

theorem Routine.pursue (flight : Flight) (dt : Float32) {turn : Turn}
    (hflight : turn.bullet.flight.isSome) :
    R turn (turn.pursue fire flight dt) := by
  rw [Turn.pursue]
  dsimp only
  have hflown := fun next => hR.advance turn next hflight
  split
  · exact hR.trans (hflown _) (hR.move _ _)
  · split
    · exact hR.trans (hflown _) (hR.trans (hfire .bulletHit _) (hfinish _ _))
    · exact hflown _
  · split
    · exact hR.trans (hflown _) (hfinish _ _)
    · exact hflown _
  · exact hflown _

theorem Routine.update (dt : Float32) (turn : Turn) : R turn (turn.update fire dt) := by
  have holder : R turn (turn.older dt) := hR.age turn _
  by_cases hactive : turn.bullet.phase = .active
  · rw [turn.update_eq fire dt hactive]
    split
    · exact holder
    · rename_i flight hflight
      split
      · exact holder
      · have hcarried : (turn.older dt).bullet.flight.isSome := Option.isSome_of_eq_some hflight
        exact hR.trans holder (hR.pursue hfire hfinish flight dt hcarried)
  · rw [Turn.update, if_pos hactive]
    exact hR.refl turn

end Routine

/-! ## Steps -/

/-- A relation between a turn before and a turn after that every step keeps. -/
structure Keeps (allowed : Actor.Edit → Prop) (R : Turn → Turn → Prop) : Prop where
  refl : ∀ turn, R turn turn
  trans : ∀ {first second third}, R first second → R second third → R first third
  tell : ∀ turn effects, (∀ effect ∈ effects, effect.Of turn.bullet.id) →
    R turn { turn with effects := turn.effects ++ effects }
  edit : ∀ turn change, allowed change →
    R turn { turn with bullet := { turn.bullet with actor := turn.bullet.actor.edit change } }
  retain : ∀ turn bullet, bullet.actor = turn.bullet.actor → R turn { turn with bullet }
  active : ∀ value, allowed (.active value)
  rotation : ∀ degrees, allowed (.rotation degrees)
  translate : ∀ delta, allowed (.translate delta)

section Keeps

variable {allowed : Actor.Edit → Prop} {R : Turn → Turn → Prop} (hR : Keeps allowed R)

include hR

theorem Keeps.record (turn : Turn) {effect : Effect}
    (hown : effect.Of turn.bullet.id) : R turn (turn.record effect) :=
  hR.tell turn [effect] (List.forall_mem_singleton.mpr hown)

theorem Keeps.emit (turn : Turn) {event : BulletEvent} (hown : event.bullet = turn.bullet.id) :
    R turn (turn.emit event) := by
  have htold := hR.tell turn (.emitted event :: (turn.bullet.emitter.emit event).2) <|
    List.forall_mem_cons.mpr ⟨hown, fun effect heffect => hown ▸ Emitter.of_mem_emit heffect⟩
  exact hR.trans htold (hR.retain
    _ { turn.bullet with emitter := (turn.bullet.emitter.emit event).1 } rfl)

theorem Keeps.move (turn : Turn) (displacement : Vec3) :
    R turn { turn with bullet := turn.bullet.move displacement } := by
  rw [Bullet.move]
  split
  · exact hR.trans (hR.edit turn _ (hR.rotation _)) (hR.edit _ _ (hR.translate displacement))
  · exact hR.edit turn _ (hR.translate displacement)

theorem Keeps.routine : Routine R where
  refl := hR.refl
  trans := hR.trans
  aside turn _ haside := hR.record turn haside.of
  launch turn _ := hR.retain turn _ rfl
  advance turn _ _ := hR.retain turn _ rfl
  age turn _ := hR.retain turn _ rfl
  move := hR.move

variable {fire : Fire} (hfire : ∀ cue turn, R turn (fire cue turn))

include hfire

theorem Keeps.start {link : Option Link} {turn started : Turn}
    (hstart : turn.start fire link = .ok started) :
    R turn started := by
  rw [Turn.start] at hstart
  split at hstart
  · cases hstart
  · have hopened := hR.trans (hR.edit turn (.active true) (hR.active true))
      (hR.retain _ { turn.bullet with
        link, elapsed := 0, phase := .active, actor := turn.bullet.actor.edit (.active true) } rfl)
    have hfired := hR.trans hopened (hfire .bulletStart _)
    dsimp only at hstart
    split at hstart
    · cases hstart
      exact hR.trans hfired (hR.emit _ rfl)
    · cases hstart
      exact hfired

theorem Keeps.finish (reason : Option EndReason)
    (turn : Turn) : R turn (turn.finish fire reason) := by
  rw [Turn.finish]
  split
  · exact hR.refl turn
  · have hclosed := hR.trans (hR.edit turn (.active false) (hR.active false))
      (hR.retain _ { turn.bullet with
        phase := .ended, actor := turn.bullet.actor.edit (.active false), endReason := reason } rfl)
    have hfired := hR.trans hclosed (hfire .bulletEnd _)
    dsimp only
    generalize fire .bulletEnd _ = fired at hfired ⊢
    have htold : R turn (fired.emit (.ended fired.bullet.id reason)) :=
      hR.trans hfired (hR.emit fired rfl)
    split
    · exact hR.trans htold (hR.record _ rfl)
    · exact htold

end Keeps

end Turn

/-! ## Calls, scripts and rules -/

/-- A relation that every order of a program to a bullet keeps, and every call as long as the
rules that run within it keep it. -/
structure Call.Keep (allowed : Actor.Edit → Prop) (R : Turn → Turn → Prop) : Prop where
  host : TriggerHost.Keeps R
  perform : ∀ {fire : Turn.Fire}, (∀ cue turn, R turn (fire cue turn)) →
    ∀ {call : Call}, call.Within allowed →
    ∀ turn, R turn (call.perform fire turn).2

section Perform

variable {allowed : Actor.Edit → Prop} {R : Turn → Turn → Prop}

theorem Turn.Keeps.calls (hR : Turn.Keeps allowed R) : Call.Keep allowed R where
  host := hR.routine.host fun turn _ _ => hR.emit turn rfl
  perform {fire} hfire {call} hcall turn := by
    cases call with
    | start link =>
        rw [Call.perform]
        split
        · rename_i started hstart
          exact hR.start hfire hstart
        · exact hR.refl turn
    | update dt => exact hR.routine.update hfire (hR.finish hfire) dt turn
    | finish reason => exact hR.finish hfire reason turn
    | edit change => exact hR.edit turn change hcall
    | fly order => exact hR.routine.fly turn order
    | damage order => exact hR.routine.damage turn order
    | announce segment cue => exact hR.emit turn rfl
    | on kind respond => exact hR.retain turn _ rfl
    | off kind listener =>
        have hleft := hR.retain turn
          { turn.bullet with emitter := (turn.bullet.emitter.off kind listener).1 } rfl
        refine hR.trans hleft (hR.tell _ _ fun effect heffect => ?_)
        split at heffect
        · rw [List.mem_singleton.mp heffect]
          rfl
        · cases heffect
    | signal value => exact hR.record turn trivial

variable (hR : Call.Keep allowed R)

include hR

theorem Script.perform_keeps {fire : Turn.Fire} (hfire : ∀ cue turn, R turn (fire cue turn))
    {script : Script} (hscript : script.Within allowed)
    (turn : Turn) : R turn (script.perform fire turn) := by
  induction script generalizing turn with
  | done => exact hR.host.refl turn
  | call first next ih =>
      exact hR.host.trans (hR.perform hfire hscript.1 turn) (ih _ _ (hscript.2 _ _) _)

/-- Rules within rules: by induction on the depth, since the scripts of one
depth run their rules one deeper. -/
theorem Shot.fire_keeps (program : Program) {book : ScriptBook} (hbook : book.Within allowed)
    (depth : Nat) (cue : Cue) (turn : Turn) : R turn (Shot.fire program book depth cue turn) := by
  induction depth generalizing cue turn with
  | zero => exact hR.host.refl turn
  | succ depth ih =>
      refine Program.run_keeps hR.host ?_ program cue turn
      intro name action haction params turn
      obtain ⟨script, hscript, rfl⟩ := Option.map_eq_some_iff.mp haction
      exact Script.perform_keeps hR ih (hbook name script hscript params turn.bullet) turn

/-- A call from outside, with the rules that run within it. -/
theorem Shot.perform_keeps {shot : Shot} (hbook : shot.book.Within allowed) (around : Surroundings)
    {call : Call} (hcall : call.Within allowed) :
    R ⟨shot.bullet, around, []⟩
      (call.perform (Shot.fire shot.program shot.book Shot.nesting) ⟨shot.bullet, around, []⟩).2 :=
  hR.perform (Shot.fire_keeps hR shot.program hbook Shot.nesting) hcall _

end Perform

/-! ## What is kept -/

section View

variable {β : Type} {allowed : Actor.Edit → Prop} {view : Actor → β}

theorem Turn.keeps_view (hview : Actor.Blind allowed view) :
    Turn.Keeps allowed fun before after => view after.bullet.actor = view before.bullet.actor where
  refl _ := rfl
  trans hfirst hsecond := hsecond.trans hfirst
  tell _ _ _ := rfl
  edit turn change hchange := hview.edit turn.bullet.actor change hchange
  retain _ _ hactor := congrArg view hactor
  active := hview.active
  rotation := hview.rotation
  translate := hview.translate

theorem Shot.perform_view (hview : Actor.Blind allowed view) {shot : Shot}
    (hbook : shot.book.Within allowed) (around : Surroundings) {call : Call}
    (hcall : call.Within allowed) :
    view (shot.perform around call).2.1.bullet.actor = view shot.bullet.actor :=
  Shot.perform_keeps (Turn.keeps_view hview).calls hbook around hcall

end View

theorem Shot.perform_id (shot : Shot) (around : Surroundings) (call : Call) :
    (shot.perform around call).2.1.bullet.id = shot.bullet.id :=
  Shot.perform_view Actor.blind_id shot.book.within_true around call.within_true

@[simp]
theorem Shot.perform_book (shot : Shot) (around : Surroundings) (call : Call) :
    (shot.perform around call).2.1.book = shot.book := rfl

/-- The turns tell more and more, and all that comes to it is about their bullet. -/
def Turn.Tells (before after : Turn) : Prop :=
  after.bullet.id = before.bullet.id ∧
    ∃ effects, after.effects = before.effects ++ effects ∧
    ∀ effect ∈ effects, effect.Of before.bullet.id

theorem Turn.keeps_tells : Turn.Keeps (fun _ => True) Turn.Tells where
  refl turn := ⟨rfl, [], (List.append_nil _).symm, List.forall_mem_nil _⟩
  trans := by
    rintro first second third ⟨hid, effects, heffects, hown⟩ ⟨hsame, others, hothers, htold⟩
    refine ⟨hsame.trans hid, effects ++ others, ?_, ?_⟩
    · rw [hothers, heffects, List.append_assoc]
    · rw [hid] at htold
      exact List.forall_mem_append.mpr ⟨hown, htold⟩
  tell turn effects hown := ⟨rfl, effects, rfl, hown⟩
  edit turn change _ := ⟨turn.bullet.actor.edit_id change, [], (List.append_nil _).symm,
    List.forall_mem_nil _⟩
  retain _ _ hactor := ⟨congrArg Actor.id hactor, [], (List.append_nil _).symm,
    List.forall_mem_nil _⟩
  active _ := trivial
  rotation _ := trivial
  translate _ := trivial

/-- All that a call to a bullet tells is about that bullet. -/
theorem Shot.of_mem_perform {shot : Shot} {around : Surroundings} {call : Call} {effect : Effect}
    (hmem : effect ∈ (shot.perform around call).2.2) : effect.Of shot.bullet.id := by
  obtain ⟨-, effects, heffects, hown⟩ :=
    Shot.perform_keeps Turn.keeps_tells.calls shot.book.within_true around call.within_true
  have htold : (shot.perform around call).2.2 = effects := heffects
  rw [htold] at hmem
  exact hown effect hmem

end Volley
