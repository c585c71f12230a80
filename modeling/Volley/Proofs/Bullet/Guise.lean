import Volley.Proofs.Bullet.Life

/-!
# What the life of a bullet depends on

A bullet goes by its own state, by the positions in the index and by what its host answers about
units and default targets. Two bullets for which these are the same do the same. Their actors may
differ in something that no script looks at, and the host may answer their requests for damage
differently: the answer is reported and has no other effect.
-/

namespace Volley

/-! ## What may differ -/

/-- What a bullet has to do with an effect: the answer to a request for damage is the host's. -/
def Effect.told? : Effect → Option Effect
  | .damageCaused host request _ => some (.damageCaused host request none)
  | .noticed (.noDamageChannel _) => none
  | effect => some effect

def Effect.told (effects : List Effect) : List Effect :=
  effects.filterMap told?

@[simp]
theorem Effect.told_append (first rest : List Effect) :
    told (first ++ rest) = told first ++ told rest :=
  List.filterMap_append

/-- The queue of a world takes nothing from what a host answers. -/
theorem Effect.filterMap_queued?_told (effects : List Effect) :
    (told effects).filterMap queued? = effects.filterMap queued? := by
  rw [told, List.filterMap_filterMap]
  congr 1
  funext effect
  cases effect with
  | noticed notice => cases notice <;> rfl
  | _ => rfl

/-- Two contexts give the same answers, except perhaps to requests for damage. -/
structure Context.Agrees (first second : Context) : Prop where
  unitPosition : first.unitPosition = second.unitPosition
  defaultUnit : first.defaultUnit = second.defaultUnit
  defaultPoint : first.defaultPoint = second.defaultPoint

def HostsAgree (first second : HostId → Context) : Prop :=
  ∀ host, (first host).Agrees (second host)

structure Surroundings.Agree (first second : Surroundings) : Prop where
  index : first.index = second.index
  hosts : HostsAgree first.hosts second.hosts

/-- Both are refused, for the same reason, or neither is. -/
inductive Concur {α : Type} (R : α → α → Prop) : Except Refusal α → Except Refusal α → Prop
  | refused (refusal : Refusal) : Concur R (.error refusal) (.error refusal)
  | granted {first second : α} (hsame : R first second) : Concur R (.ok first) (.ok second)

/-- What an actor is taken for by those who overlook a part of it. Flights and indices overlook no
part that matters to them, and an edit shows no more of an actor than was seen before. -/
structure Actor.Guise (guise : Actor → Actor) : Prop where
  edit : ∀ actor change, guise ((guise actor).edit change) = guise (actor.edit change)
  id : ∀ actor, (guise actor).id = actor.id
  position : ∀ actor, (guise actor).position = actor.position
  active : ∀ actor, (guise actor).active = actor.active

theorem Actor.guise_self : Actor.Guise fun actor => actor where
  edit _ _ := rfl
  id _ := rfl
  position _ := rfl
  active _ := rfl

/-- The guise of actors whose visuals are overlooked. -/
theorem Actor.guise_bare : Actor.Guise Actor.bare where
  edit actor change := by
    cases change <;> rfl
  id _ := rfl
  position _ := rfl
  active _ := rfl

theorem Actor.Guise.edit_congr {guise : Actor → Actor} (hguise : Actor.Guise guise)
    {first second : Actor} (hsame : guise first = guise second) (change : Edit) :
    guise (first.edit change) = guise (second.edit change) := by
  rw [← hguise.edit first, hsame, hguise.edit]

def Bullet.inGuise (guise : Actor → Actor) (bullet : Bullet) : Bullet :=
  { bullet with actor := guise bullet.actor }

def Shot.inGuise (guise : Actor → Actor) (shot : Shot) : Shot :=
  { shot with bullet := shot.bullet.inGuise guise }

/-- The script goes by the guise of a bullet's actor alone. -/
def Script.GoesBy (guise : Actor → Actor) : Script → Prop
  | .done => True
  | .call _ next => ∀ reply bullet,
      next reply bullet = next reply (bullet.inGuise guise) ∧ (next reply bullet).GoesBy guise

structure ScriptBook.GoesBy (guise : Actor → Actor) (book : ScriptBook) : Prop where
  condition : ∀ name condition, book.conditions.find? name = some condition →
    ∀ bullet params, condition bullet params = condition (bullet.inGuise guise) params
  action : ∀ name action, book.actions.find? name = some action → ∀ params bullet,
    action params bullet = action params (bullet.inGuise guise) ∧
      (action params bullet).GoesBy guise

theorem Script.goesBy_self (script : Script) : script.GoesBy fun actor => actor := by
  induction script with
  | done => trivial
  | call first next ih => exact fun reply bullet => ⟨rfl, ih reply bullet⟩

theorem ScriptBook.goesBy_self (book : ScriptBook) : book.GoesBy fun actor => actor where
  condition _ _ _ _ _ := rfl
  action _ _ _ _ _ := ⟨rfl, Script.goesBy_self _⟩

theorem ScriptBook.goesBy_empty (guise : Actor → Actor) : ScriptBook.empty.GoesBy guise where
  condition _ _ hcondition := nomatch hcondition
  action _ _ haction := nomatch haction

theorem Context.Agrees.refl (context : Context) : context.Agrees context :=
  ⟨rfl, rfl, rfl⟩

theorem HostsAgree.refl (hosts : HostId → Context) : HostsAgree hosts hosts :=
  fun host => .refl (hosts host)

theorem Surroundings.Agree.refl (around : Surroundings) : around.Agree around :=
  ⟨rfl, .refl around.hosts⟩

theorem Link.context_agrees {first second : Surroundings} (hagree : first.Agree second)
    (link : Link) :
    (link.context first).Agrees (link.context second) := by
  cases link with
  | host id => exact hagree.hosts id
  | world host =>
      cases host with
      | none =>
          refine ⟨?_, rfl, rfl⟩
          simp only [context, hagree.index]
      | some id =>
          obtain ⟨hposition, hunit, hpoint⟩ := hagree.hosts id
          refine ⟨?_, hunit, hpoint⟩
          simp only [context, hagree.index, hposition]

theorem Link.locator_agrees {first second : Surroundings} (hagree : first.Agree second)
    (link : Option Link) :
    Link.locator link first = Link.locator link second := by
  funext unit
  cases link with
  | none => rfl
  | some link => exact congrFun (link.context_agrees hagree).unitPosition unit

/-! ## Turns that cannot be told apart -/

variable {guise : Actor → Actor}

namespace Bullet

/-- The bullets are the same but for what the guise of their actors hides. -/
def Alike (guise : Actor → Actor) (first second : Bullet) : Prop :=
  first.inGuise guise = second.inGuise guise

variable {first second : Bullet}

theorem Alike.same {β : Type} (halike : Alike guise first second) (view : Bullet → β)
    (hview : ∀ bullet, view (bullet.inGuise guise) = view bullet) : view first = view second := by
  rw [← hview first, show first.inGuise guise = second.inGuise guise from halike, hview]

theorem Alike.id (hguise : Actor.Guise guise)
    (halike : Alike guise first second) : first.id = second.id :=
  halike.same _ fun bullet => hguise.id bullet.actor

theorem Alike.position (hguise : Actor.Guise guise) (halike : Alike guise first second) :
    first.actor.position = second.actor.position :=
  halike.same (fun bullet => bullet.actor.position) fun bullet => hguise.position bullet.actor

theorem Alike.phase (halike : Alike guise first second) : first.phase = second.phase :=
  halike.same _ fun _ => rfl

theorem Alike.link (halike : Alike guise first second) : first.link = second.link :=
  halike.same _ fun _ => rfl

/-- Whatever is done to the bullets apart from their actors. -/
theorem Alike.retain (halike : Alike guise first second) (change : Bullet → Bullet)
    (hchange : ∀ bullet, (change bullet).inGuise guise = change (bullet.inGuise guise)) :
    Alike guise (change first) (change second) := by
  rw [Alike, hchange, hchange]
  exact congrArg change halike

theorem Alike.edit (hguise : Actor.Guise guise) (halike : Alike guise first second)
    (change : Actor.Edit) :
    Alike guise { first with actor := first.actor.edit change }
      { second with actor := second.actor.edit change } := by
  have hactor := hguise.edit_congr (congrArg Bullet.actor halike) change
  rw [Alike, inGuise, inGuise, hactor]
  exact congrArg (fun bullet => { bullet with actor := guise (second.actor.edit change) }) halike

theorem Alike.move (hguise : Actor.Guise guise) (halike : Alike guise first second)
    (displacement : Vec3) :
    Alike guise (first.move displacement) (second.move displacement) := by
  rw [Bullet.move, Bullet.move]
  split
  · exact (halike.edit hguise _).edit hguise (.translate displacement)
  · exact halike.edit hguise (.translate displacement)

variable {around other : Surroundings}

theorem Alike.locator (halike : Alike guise first second) (hagree : around.Agree other) :
    first.locator around = second.locator other := by
  rw [Bullet.locator, Bullet.locator, halike.link]
  exact Link.locator_agrees hagree second.link

theorem Alike.guidance (halike : Alike guise first second) (hagree : around.Agree other) :
    first.guidance around = second.guidance other := by
  have hguide : first.guide = second.guide := halike.same _ fun _ => rfl
  rw [Bullet.guidance, Bullet.guidance, hguide]
  exact Link.locator_agrees hagree second.guide

theorem Alike.flightTarget (halike : Alike guise first second) (hagree : around.Agree other)
    (order : FlyOrder) :
    first.flightTarget around order = second.flightTarget other order := by
  rw [Bullet.flightTarget, Bullet.flightTarget, context?, context?, halike.link]
  cases second.link with
  | none => rfl
  | some link =>
      obtain ⟨-, hunit, hpoint⟩ := link.context_agrees hagree
      simp only [Option.map_some, hunit, hpoint]

end Bullet

namespace Turn

/-- Two turns of bullets that are alike, in surroundings that agree, have told the same so far. -/
structure Alike (guise : Actor → Actor) (first second : Turn) : Prop where
  bullet : first.bullet.Alike guise second.bullet
  around : first.around.Agree second.around
  told : Effect.told first.effects = Effect.told second.effects

variable {first second : Turn}

/-- What a strike tells: its host is asked for damage, if there is one. -/
theorem exists_strike_eq (turn : Turn) {order : DamageOrder} (hpositive : ¬damageOf order ≤ 0)
    (link : Link) (target : ActorId) :
    ∃ effects, turn.strike order link target = { turn with effects := turn.effects ++ effects } ∧
      Effect.told effects = (link.host?.map fun host =>
        .damageCaused host
          { attacker := turn.bullet.id, target, amount := (damageOf order).toUInt32 }
          none).toList := by
  rw [strike]
  dsimp only
  rw [if_neg hpositive]
  generalize (link.context turn.around).damage _ = answer
  cases link.host? with
  | none =>
      cases answer with
      | none => exact ⟨[.noticed (.noDamageChannel turn.bullet.id)], rfl, rfl⟩
      | some applied => exact ⟨[], by rw [List.append_nil], rfl⟩
  | some host =>
      cases answer with
      | none =>
          refine ⟨[.damageCaused host
            { attacker := turn.bullet.id, target, amount := (damageOf order).toUInt32 } none,
            .noticed (.noDamageChannel turn.bullet.id)], ?_, rfl⟩
          simp only [note, record, List.append_assoc, List.cons_append, List.nil_append]
      | some applied => exact ⟨[_], rfl, rfl⟩

theorem Alike.refl (guise : Actor → Actor) (turn : Turn) : Alike guise turn turn :=
  ⟨rfl, .refl turn.around, rfl⟩

theorem Alike.become (halike : Alike guise first second) {bullet other : Bullet}
    (hbullet : bullet.Alike guise other) :
    Alike guise { first with bullet } { second with bullet := other } :=
  ⟨hbullet, halike.around, halike.told⟩

theorem Alike.effects (halike : Alike guise first second) {effects others : List Effect}
    (htold : Effect.told effects = Effect.told others) :
    Alike guise { first with effects := first.effects ++ effects }
      { second with effects := second.effects ++ others } := by
  refine ⟨halike.bullet, halike.around, ?_⟩
  rw [Effect.told_append, Effect.told_append, halike.told, htold]

theorem Alike.record (halike : Alike guise first second) (effect : Effect) :
    Alike guise (first.record effect) (second.record effect) :=
  halike.effects rfl

theorem Alike.emit (halike : Alike guise first second) (event : BulletEvent) :
    Alike guise (first.emit event) (second.emit event) := by
  rw [Turn.emit, Turn.emit, halike.bullet.same Bullet.emitter fun _ => rfl]
  have hbullet := halike.bullet.retain
    (fun bullet => { bullet with emitter := (second.bullet.emitter.emit event).1 }) fun _ => rfl
  exact (halike.effects rfl).become hbullet

variable (hguise : Actor.Guise guise)

include hguise

theorem Alike.fly (halike : Alike guise first second) (order : FlyOrder) :
    Alike guise (first.fly order) (second.fly order) := by
  rw [Turn.fly, Turn.fly, halike.bullet.locator halike.around,
    halike.bullet.flightTarget halike.around,
    halike.bullet.position hguise, halike.bullet.id hguise, halike.bullet.link]
  dsimp only
  split
  · exact halike.record _
  · exact halike.become (halike.bullet.retain
      (fun bullet => { bullet with flight := some _, guide := second.bullet.link }) fun _ => rfl)

theorem Alike.strike (halike : Alike guise first second) (order : DamageOrder) (link : Link)
    (target : ActorId) :
    Alike guise (first.strike order link target) (second.strike order link target) := by
  by_cases hpositive : damageOf order ≤ 0
  · rw [Turn.strike, Turn.strike, halike.bullet.id hguise]
    dsimp only
    rw [if_pos hpositive, if_pos hpositive]
    exact halike.record _
  · obtain ⟨effects, heffects, htold⟩ := first.exists_strike_eq hpositive link target
    obtain ⟨others, hothers, hsame⟩ := second.exists_strike_eq hpositive link target
    rw [heffects, hothers]
    rw [← halike.bullet.id hguise, ← htold] at hsame
    exact halike.effects hsame.symm

theorem Alike.damage (halike : Alike guise first second) (order : DamageOrder) :
    Alike guise (first.damage order) (second.damage order) := by
  rw [Turn.damage, Turn.damage, halike.bullet.link, halike.bullet.id hguise]
  dsimp only
  cases second.bullet.link with
  | none => exact halike.record _
  | some link =>
      dsimp only
      rw [(link.context_agrees halike.around).defaultUnit]
      split
      · exact halike.record _
      · split
        · exact halike.record _
        · refine Alike.strike hguise ?_ order link _
          have hfirst : Alike guise
              (if order.key.isSome then first.note (.damageKeyIgnored second.bullet.id) else first)
              (if order.key.isSome then second.note (.damageKeyIgnored second.bullet.id)
                else second) := by
            split
            · exact halike.record _
            · exact halike
          split
          · exact hfirst.record _
          · exact hfirst

/-- Programs do not tell such turns apart. -/
theorem congruence_alike : TriggerHost.Congruence (Alike guise) where
  elapsed halike := halike.bullet.same Bullet.elapsed fun _ => rfl
  position halike := halike.bullet.position hguise
  unitPosition halike := halike.bullet.locator halike.around
  orderFlight order _ _ halike := halike.fly hguise order
  orderDamage order _ _ halike := halike.damage hguise order
  announce segment cue first second halike := by
    have hevent : BulletEvent.ruleFired first.bullet.id segment cue =
        .ruleFired second.bullet.id segment cue :=
      congrArg (fun id => BulletEvent.ruleFired id segment cue) (halike.bullet.id hguise)
    change Alike guise (first.emit (.ruleFired first.bullet.id segment cue)) _
    rw [hevent]
    exact halike.emit _
  note notice _ _ halike := halike.record _

/-- The rules that wait for a cue do the same to both. -/
def Fire.Blends (guise : Actor → Actor) (fire : Fire) : Prop :=
  ∀ cue {first second}, Alike guise first second → Alike guise (fire cue first) (fire cue second)

variable {fire : Fire} (hfire : fire.Blends guise)

include hfire

theorem Alike.finish (halike : Alike guise first second) (reason : Option EndReason) :
    Alike guise (first.finish fire reason) (second.finish fire reason) := by
  rw [Turn.finish, Turn.finish, halike.bullet.phase]
  split
  · exact halike
  · have hended := (halike.bullet.edit hguise (.active false)).retain
      (fun bullet => { bullet with phase := .ended, endReason := reason }) fun _ => rfl
    have hfired := hfire .bulletEnd (halike.become hended)
    dsimp only
    generalize fire .bulletEnd _ = firstFired at hfired ⊢
    generalize fire .bulletEnd _ = secondFired at hfired ⊢
    have htold : Alike guise (firstFired.emit (.ended firstFired.bullet.id reason))
        (secondFired.emit (.ended secondFired.bullet.id reason)) := by
      rw [hfired.bullet.id hguise]
      exact hfired.emit _
    rw [htold.bullet.link, htold.bullet.id hguise]
    split
    · exact htold.record _
    · exact htold

theorem Alike.start (halike : Alike guise first second) (link : Option Link) :
    Concur (Alike guise) (first.start fire link) (second.start fire link) := by
  rw [Turn.start, Turn.start, halike.bullet.phase, halike.bullet.id hguise]
  split
  · exact .refused _
  · have hactive := (halike.bullet.edit hguise (.active true)).retain
      (fun bullet => { bullet with link, elapsed := 0, phase := .active }) fun _ => rfl
    have hfired := hfire .bulletStart (halike.become hactive)
    dsimp only
    generalize fire .bulletStart _ = firstFired at hfired ⊢
    generalize fire .bulletStart _ = secondFired at hfired ⊢
    rw [hfired.bullet.phase, hfired.bullet.id hguise]
    split
    · exact .granted (hfired.emit _)
    · exact .granted hfired

theorem Alike.pursue (halike : Alike guise first second) (flight : Flight) (dt : Float32) :
    Alike guise (first.pursue fire flight dt) (second.pursue fire flight dt) := by
  rw [Turn.pursue, Turn.pursue, halike.bullet.guidance halike.around, halike.bullet.position hguise]
  dsimp only
  generalize flight.update _ _ dt = flown
  obtain ⟨next, step⟩ := flown
  have hflown := halike.become (halike.bullet.retain
    (fun bullet => { bullet with flight := some next }) fun _ => rfl)
  cases step with
  | moved displacement => exact hflown.become (hflown.bullet.move hguise displacement)
  | hit =>
      dsimp only
      split
      · exact Alike.finish hguise hfire (hfire .bulletHit hflown) _
      · exact hflown
  | targetLost =>
      dsimp only
      split
      · exact Alike.finish hguise hfire hflown _
      · exact hflown
  | inactive => exact hflown

theorem Alike.update (halike : Alike guise first second) (dt : Float32) :
    Alike guise (first.update fire dt) (second.update fire dt) := by
  by_cases hactive : second.bullet.phase = .active
  · have hflight : first.bullet.flight = second.bullet.flight := halike.bullet.same _ fun _ => rfl
    have holder := halike.become (halike.bullet.retain
      (fun bullet => { bullet with elapsed := bullet.elapsed + dt }) fun _ => rfl)
    rw [first.update_eq fire dt (halike.bullet.phase.trans hactive),
      second.update_eq fire dt hactive, hflight]
    split
    · exact holder
    · split
      · exact holder
      · exact holder.pursue hguise hfire _ dt
  · rw [Turn.update, Turn.update, halike.bullet.phase, if_pos hactive, if_pos hactive]
    exact halike

end Turn

/-! ## Calls, scripts and rules -/

section Perform

variable (hguise : Actor.Guise guise) {first second : Turn}

include hguise

theorem Call.perform_alike {fire : Turn.Fire} (hfire : fire.Blends guise)
    (halike : first.Alike guise second) (call : Call) :
    (call.perform fire first).1 = (call.perform fire second).1 ∧
      (call.perform fire first).2.Alike guise (call.perform fire second).2 := by
  cases call with
  | start link =>
      have hstart := halike.start hguise hfire link
      rw [perform, perform]
      generalize first.start fire link = firstStarted at hstart ⊢
      generalize second.start fire link = secondStarted at hstart ⊢
      cases hstart with
      | refused refusal => exact ⟨rfl, halike⟩
      | granted hstarted => exact ⟨rfl, hstarted⟩
  | update dt => exact ⟨rfl, halike.update hguise hfire dt⟩
  | finish reason => exact ⟨rfl, halike.finish hguise hfire reason⟩
  | edit change => exact ⟨rfl, halike.become (halike.bullet.edit hguise change)⟩
  | fly order => exact ⟨rfl, halike.fly hguise order⟩
  | damage order => exact ⟨rfl, halike.damage hguise order⟩
  | announce segment cue => exact ⟨rfl, (Turn.congruence_alike hguise).announce segment cue halike⟩
  | on kind respond =>
      have hemitter : first.bullet.emitter = second.bullet.emitter :=
        halike.bullet.same _ fun _ => rfl
      rw [perform, perform, hemitter]
      exact ⟨rfl, halike.become (halike.bullet.retain
        (fun bullet => { bullet with emitter := _ }) fun _ => rfl)⟩
  | off kind listener =>
      have hemitter : first.bullet.emitter = second.bullet.emitter :=
        halike.bullet.same _ fun _ => rfl
      have hleft := halike.become (halike.bullet.retain
        (fun bullet => { bullet with emitter := (second.bullet.emitter.off kind listener).1 })
          fun _ => rfl)
      rw [perform, perform, hemitter, halike.bullet.id hguise]
      exact ⟨rfl, hleft.effects rfl⟩
  | signal value => exact ⟨rfl, halike.record _⟩

theorem Script.perform_alike {fire : Turn.Fire} (hfire : fire.Blends guise) {script : Script}
    (hscript : script.GoesBy guise) (halike : first.Alike guise second) :
    (script.perform fire first).Alike guise (script.perform fire second) := by
  induction script generalizing first second with
  | done => exact halike
  | call call next ih =>
      obtain ⟨hreply, hafter⟩ := call.perform_alike hguise hfire halike
      rw [perform, perform]
      generalize call.perform fire first = firstDone at hreply hafter ⊢
      generalize call.perform fire second = secondDone at hreply hafter ⊢
      obtain ⟨reply, firstAfter⟩ := firstDone
      obtain ⟨_, secondAfter⟩ := secondDone
      obtain rfl : reply = _ := hreply
      have hnext : next reply firstAfter.bullet = next reply secondAfter.bullet := by
        rw [(hscript reply firstAfter.bullet).1, (hscript reply secondAfter.bullet).1]
        exact congrArg (next reply) hafter.bullet
      dsimp only
      rw [hnext]
      exact ih reply _ (hscript reply _).2 hafter

theorem ScriptBook.GoesBy.congruence {fire : Turn.Fire} (hfire : fire.Blends guise)
    {book : ScriptBook} (hbook : book.GoesBy guise) :
    (book.handlers fire).Congruence (Turn.Alike guise) where
  condition name condition hcondition params first second halike := by
    obtain ⟨found, hfound, rfl⟩ := Option.map_eq_some_iff.mp hcondition
    dsimp only
    rw [hbook.condition name found hfound first.bullet,
      hbook.condition name found hfound second.bullet]
    exact congrArg (fun bullet => found bullet params) halike.bullet
  action name action haction params first second halike := by
    obtain ⟨found, hfound, rfl⟩ := Option.map_eq_some_iff.mp haction
    have hsame : found params first.bullet = found params second.bullet := by
      rw [(hbook.action name found hfound params first.bullet).1,
        (hbook.action name found hfound params second.bullet).1]
      exact congrArg (found params) halike.bullet
    dsimp only
    rw [hsame]
    exact Script.perform_alike hguise hfire (hbook.action name found hfound params _).2 halike

/-- Rules within rules, as far down as they go. -/
theorem Shot.fire_blends (program : Program) {book : ScriptBook} (hbook : book.GoesBy guise)
    (depth : Nat) :
    (Shot.fire program book depth).Blends guise := by
  induction depth with
  | zero => exact fun cue first second halike => halike
  | succ depth ih =>
      intro cue first second halike
      exact (Program.run_congr (Turn.congruence_alike hguise) (hbook.congruence hguise ih)
        halike program cue).2

/-- What a call to a bullet does is a matter of the bullet as it appears, of the index, and of what
the hosts answer, but for their answers to requests for damage. -/
theorem Shot.perform_alike {first second : Shot}
    (hsame : first.inGuise guise = second.inGuise guise) (hbook : first.book.GoesBy guise)
    {around other : Surroundings} (hagree : around.Agree other) (call : Call) :
    (first.perform around call).1 = (second.perform other call).1 ∧
      (first.perform around call).2.1.inGuise guise =
        (second.perform other call).2.1.inGuise guise ∧
      Effect.told (first.perform around call).2.2 =
        Effect.told (second.perform other call).2.2 := by
  have hprogram : first.program = second.program := (congrArg Shot.program hsame :)
  have hbooks : first.book = second.book := (congrArg Shot.book hsame :)
  have hturn : Turn.Alike guise ⟨first.bullet, around, []⟩ ⟨second.bullet, other, []⟩ :=
    ⟨congrArg Shot.bullet hsame, hagree, rfl⟩
  obtain ⟨hreply, hafter⟩ :=
    call.perform_alike hguise (fire_blends hguise first.program hbook nesting) hturn
  rw [perform, perform, ← hprogram, ← hbooks]
  refine ⟨hreply, ?_, hafter.told⟩
  rw [Shot.inGuise, Shot.inGuise]
  dsimp only
  rw [show _ = _ from hafter.bullet]

end Perform

end Volley
