import Volley.Proofs.Bullet.Damage
import Volley.Proofs.Bullet.Landing
import Volley.Proofs.Bullet.Story
import Volley.Proofs.Flight.Ending
import Volley.Proofs.Json.Trees

/-!
# Bullets that fly after their end

A bullet flies while its flight is under way, whatever its phase. The end of a bullet does not touch
the flight: one that is under way goes on, and so does one that the last rules order. From then on
nothing from outside touches it either.
-/

namespace Volley

namespace Bullet

/-- A bullet flies only while it is active. -/
def Grounded (bullet : Bullet) : Prop :=
  bullet.isFlying = true → bullet.phase = .active

/-- The flight is the same, or else it is under way. -/
def Lofts (before after : Bullet) : Prop :=
  after.flight = before.flight ∨ after.isFlying = true

variable {first second third before after : Bullet}

theorem isFlying_congr
    (hflight : after.flight = before.flight) : after.isFlying = before.isFlying := by
  rw [isFlying, isFlying, hflight]

theorem Lofts.trans (hfirst : Lofts first second)
    (hsecond : Lofts second third) : Lofts first third := by
  rcases hsecond with hsame | hflies
  · rcases hfirst with hearlier | hflies
    · exact .inl (hsame.trans hearlier)
    · exact .inr ((isFlying_congr hsame).trans hflies)
  · exact .inr hflies

/-- A bullet flies afterwards if it did before, or else if its flight is another one. -/
theorem Lofts.isFlying_iff (hlofts : Lofts before after) :
    after.isFlying = true ↔ before.isFlying = true ∨ after.flight ≠ before.flight := by
  constructor
  · intro hflies
    by_cases hsame : after.flight = before.flight
    · exact .inl ((isFlying_congr hsame).symm.trans hflies)
    · exact .inr hsame
  · rintro (hflies | hother)
    · exact hlofts.elim (fun hsame => (isFlying_congr hsame).trans hflies) fun hafter => hafter
    · exact hlofts.resolve_left hother

end Bullet

namespace Turn

theorem bullet_strike (turn : Turn) (order : DamageOrder) (link : Link) (target : ActorId) :
    (turn.strike order link target).bullet = turn.bullet := by
  rw [strike]
  dsimp only
  split
  · rfl
  · cases link.host? <;> cases (link.context turn.around).damage _ <;> rfl

theorem bullet_damage (turn : Turn) (order : DamageOrder) :
    (turn.damage order).bullet = turn.bullet := by
  rw [damage]
  dsimp only
  split
  · rfl
  · split
    · rfl
    · split
      · rfl
      · rw [bullet_strike, (remark_eq _ _ _).1, (remark_eq _ _ _).1]

theorem lofts_fly (turn : Turn) (order : FlyOrder) : turn.bullet.Lofts (turn.fly order).bullet := by
  rw [fly]
  dsimp only
  split
  · exact .inl rfl
  · exact .inr (Flight.launch_active _ _ _)

/-- Whatever the rules of a bullet without scripts order, they do not bring a flight to its end. -/
theorem lofts_keeps :
    TriggerHost.Keeps fun before after : Turn => before.bullet.Lofts after.bullet where
  refl _ := .inl rfl
  trans hfirst hsecond := Bullet.Lofts.trans hfirst hsecond
  orderFlight order turn := lofts_fly turn order
  orderDamage order turn := .inl (congrArg Bullet.flight (bullet_damage turn order))
  announce _ _ _ := .inl rfl
  note _ _ := .inl rfl

/-- A bullet that has ended stays so, and its flight is not brought to an end. -/
def Soars (before after : Turn) : Prop :=
  before.bullet.phase = .ended → after.bullet.phase = .ended ∧ before.bullet.Lofts after.bullet

namespace Soars

theorem refl (turn : Turn) : Soars turn turn :=
  fun hended => ⟨hended, .inl rfl⟩

theorem of_eq {before after : Turn} (hphase : after.bullet.phase = before.bullet.phase)
    (hlofts : before.bullet.Lofts after.bullet) : Soars before after :=
  fun hended => ⟨hphase.trans hended, hlofts⟩

theorem fly (turn : Turn) (order : FlyOrder) : Soars turn (turn.fly order) := by
  refine .of_eq ?_ (lofts_fly turn order)
  rw [Turn.fly]
  dsimp only
  split <;> rfl

theorem damage (turn : Turn) (order : DamageOrder) : Soars turn (turn.damage order) := by
  rw [Soars, bullet_damage]
  exact refl turn

theorem host : TriggerHost.Keeps Soars where
  refl := refl
  trans hfirst hsecond hended := by
    obtain ⟨hphase, hlofts⟩ := hfirst hended
    exact ⟨(hsecond hphase).1, hlofts.trans (hsecond hphase).2⟩
  orderFlight order turn := fly turn order
  orderDamage order turn := damage turn order
  announce _ _ _ := .of_eq rfl (.inl rfl)
  note _ _ := .of_eq rfl (.inl rfl)

/-- Of all that scripts can call, only an order to fly does anything to the
flight of a bullet that has ended. -/
theorem calls : Call.Keep (fun _ => True) Soars where
  host := host
  perform {fire} _ {call} _ turn := by
    intro hended
    have hactive : turn.bullet.phase ≠ .active := by simp [hended]
    have hpending : turn.bullet.phase ≠ .pending := by simp [hended]
    cases call with
    | start link =>
        rw [Call.perform, start_eq, if_neg hpending]
        exact refl turn hended
    | update dt =>
        rw [Call.perform, update_of_not_active fire dt hactive]
        exact refl turn hended
    | finish reason =>
        rw [Call.perform, finish_eq, if_neg hactive]
        exact refl turn hended
    | fly order => exact fly turn order hended
    | damage order => exact damage turn order hended
    | _ => exact ⟨hended, .inl rfl⟩

end Soars

/-- The end of a bullet leaves its flight alone, but its last rules may order another one. -/
theorem lofts_finish {fire : Fire} (hfire : ∀ cue turn, Soars turn (fire cue turn)) (turn : Turn)
    (hactive : turn.bullet.phase = .active) (reason : Option EndReason) :
    turn.bullet.Lofts (turn.finish fire reason).bullet := by
  rw [finish_eq, if_pos hactive, tellEnd_bullet]
  exact (hfire .bulletEnd (turn.closed reason) rfl).2

theorem Lofts.of_rules (shot : Shot) (cue : Cue) (turn : Turn) :
    turn.bullet.Lofts (shot.rules cue turn).bullet := by
  refine Program.run_keeps lofts_keeps (fun name action haction => ?_) shot.program cue turn
  cases haction

/-- A flight that brings its bullet to an end is over; the rules that run then
may order another one. -/
theorem lofts_update_of_ended (shot : Shot) (turn : Turn) {flight : Flight} {dt : Float32}
    (hflies : turn.bullet.Flies flight)
    (hended : (turn.update shot.rules dt).bullet.phase = .ended) :
    (turn.bullet.landed flight dt).Lofts (turn.update shot.rules dt).bullet := by
  have hlofts : ∀ (reason : EndReason) (fired : Turn),
      fired.bullet.Lofts (fired.ending shot.rules reason).bullet := by
    intro reason fired
    rw [ending, tellEnd_bullet]
    exact Lofts.of_rules shot .bulletEnd (fired.closed (some reason))
  have hticked := ticked shot.rules_steered turn dt
  cases hlocate : flight.plan.target.locate (turn.bullet.guidance turn.around) with
  | none =>
      have hlost := hticked.lost flight hflies hlocate
      dsimp only at hlost
      split at hlost
      · rw [hlost.1]
        exact hlofts _ _
      · rw [hlost] at hended
        exact absurd (hended.symm.trans hflies.phase) (by decide)
  | some target =>
      cases hcollides : Flight.collides flight.plan turn.bullet.actor.position target with
      | true =>
          have hhit := hticked.hit flight target hflies hlocate hcollides
          dsimp only at hhit
          split at hhit
          · rw [hhit.1]
            exact (Lofts.of_rules shot .bulletHit _).trans (hlofts _ _)
          · rw [hhit] at hended
            exact absurd (hended.symm.trans hflies.phase) (by decide)
      | false =>
          obtain ⟨next, displacement, -, -, -, hactive, -⟩ :=
            hticked.clear flight target hflies hlocate hcollides
          exact absurd (hended.symm.trans hactive) (by decide)

end Turn

/-! ## Calls from outside -/

/-- The calls that a bullet lives by. -/
def Call.IsVital : Call → Prop
  | .start _ | .update _ | .finish _ => True
  | _ => False

namespace Shot

def after (shot : Shot) (calls : List (Surroundings × Call)) : Shot :=
  (shot.performAll calls).2.1

def Vital (calls : List (Surroundings × Call)) : Prop :=
  ∀ made ∈ calls, made.2.IsVital

/-- The bullet ends with the call, and flies then. -/
def EndsAloft (shot : Shot) (made : Surroundings × Call) : Prop :=
  shot.bullet.phase ≠ .ended ∧ (shot.perform made.1 made.2).2.1.bullet.phase = .ended ∧
    (shot.perform made.1 made.2).2.1.bullet.isFlying = true

theorem after_concat (shot : Shot) (calls : List (Surroundings × Call))
    (made : Surroundings × Call) :
    shot.after (calls ++ [made]) = ((shot.after calls).perform made.1 made.2).2.1 := by
  rw [after, performAll_concat]
  rfl

theorem book_after (shot : Shot)
    (calls : List (Surroundings × Call)) : (shot.after calls).book = shot.book := by
  induction calls using List.reverseRecOn with
  | nil => rfl
  | append_singleton calls made ih => rw [after_concat, perform_book, ih]

variable {shot : Shot} {around : Surroundings} {call : Call} {calls : List (Surroundings × Call)}

theorem fire_soars (shot : Shot) (cue : Cue) (turn : Turn) :
    turn.Soars (fire shot.program shot.book nesting cue turn) :=
  fire_keeps Turn.Soars.calls shot.program shot.book.within_true nesting cue turn

/-- A call does nothing to a bullet that is not active, unless it starts a pending one. -/
theorem perform_of_idle (hcall : call.IsVital) (hactive : shot.bullet.phase ≠ .active)
    (hstart : call.isStart = true → shot.bullet.phase ≠ .pending) :
    (shot.perform around call).2.1.bullet = shot.bullet := by
  have horderly := shot.perform_orderly around call
  cases call with
  | start link =>
      have hrefused := horderly.start link rfl
      rw [if_neg (hstart rfl)] at hrefused
      exact congrArg (fun result : Reply × Turn => result.2.bullet) hrefused
  | update dt =>
      exact congrArg (fun result : Reply × Turn => result.2.bullet) (horderly.update dt rfl hactive)
  | finish reason =>
      have hidle := horderly.finish reason rfl
      rw [if_neg hactive] at hidle
      exact congrArg (fun result : Reply × Turn => result.2.bullet) hidle
  | _ => exact hcall.elim

theorem perform_of_ended (hcall : call.IsVital) (hended : shot.bullet.phase = .ended) :
    (shot.perform around call).2.1.bullet = shot.bullet :=
  perform_of_idle hcall (by simp [hended]) fun _ => by simp [hended]

/-- A bullet that is still pending is as it was. -/
theorem perform_of_pending (hcall : call.IsVital)
    (hpending : (shot.perform around call).2.1.bullet.phase = .pending) :
    (shot.perform around call).2.1.bullet = shot.bullet := by
  have horderly := shot.perform_orderly around call
  have hbefore : shot.bullet.phase = .pending := by
    by_contra hbegun
    obtain ⟨told, hcourse, -⟩ := horderly.lives.course
    exact hcourse.begun hbegun hpending
  refine perform_of_idle hcall (by simp [hbefore]) fun hstart => ?_
  cases call with
  | start link =>
      have hstarted := horderly.start link rfl
      rw [if_pos hbefore] at hstarted
      exact absurd hpending hstarted.2.1
  | _ => cases hstart

/-- As long as a bullet is pending, it does not fly. -/
theorem flight_of_pending (hflight : shot.bullet.flight = none) (hcalls : Vital calls)
    (hpending : (shot.after calls).bullet.phase = .pending) :
    (shot.after calls).bullet.flight = none := by
  induction calls using List.reverseRecOn with
  | nil => exact hflight
  | append_singleton calls made ih =>
      obtain ⟨hearlier, hmade⟩ := List.forall_mem_append.mp hcalls
      rw [after_concat] at hpending ⊢
      have hsame := perform_of_pending (hmade made (List.mem_singleton_self made)) hpending
      rw [hsame] at hpending ⊢
      exact ih hearlier hpending

/-! ## How a bullet comes to fly after its end -/

/-- A bullet that was created without a flight, and the calls it lives by. -/
structure Airborne (shot : Shot) : Prop where
  /-- What flies and is not active has ended aloft at some call before. -/
  run : ∀ calls, Vital calls →
    ((∀ earlier, earlier <+: calls → (shot.after earlier).bullet.Grounded) ↔
      ∀ earlier made, earlier ++ [made] <+: calls → ¬ (shot.after earlier).EndsAloft made)
  /-- An end from outside leaves a flight under way, and takes one that the last rules order. -/
  cut : ∀ calls around reason, Vital calls → (shot.after calls).bullet.phase = .active →
    ((shot.after calls).EndsAloft (around, .finish reason) ↔
      (shot.after calls).bullet.isFlying = true ∨
        (shot.after (calls ++ [(around, .finish reason)])).bullet.flight ≠
          (shot.after calls).bullet.flight)
  /-- Without scripts, no bullet ends as it starts. -/
  opening : shot.book = .empty → ∀ calls around link, Vital calls →
    ¬ (shot.after calls).EndsAloft (around, .start link)
  /-- Without scripts, a flight that comes to its end leaves the bullet aloft if the
  rules that run then order another. -/
  landing : shot.book = .empty → ∀ calls around dt flight, Vital calls →
    (shot.after calls).bullet.Flies flight →
    ((shot.after calls).EndsAloft (around, .update dt) ↔
      (shot.after (calls ++ [(around, .update dt)])).bullet.phase = .ended ∧
        (shot.after (calls ++ [(around, .update dt)])).bullet.flight ≠
          some { flight with active := false })
  /-- All runs are as they should be if no run ever flies, and only then. -/
  ever : (∀ calls, Vital calls → (shot.after calls).bullet.Grounded) ↔
    ∀ calls, Vital calls → (shot.after calls).bullet.isFlying = false

theorem isFlying_of_pending (hflight : shot.bullet.flight = none) (hcalls : Vital calls)
    (hpending : (shot.after calls).bullet.phase = .pending) :
    (shot.after calls).bullet.isFlying = false := by
  rw [Bullet.isFlying, flight_of_pending hflight hcalls hpending]

/-- A run that never ends aloft is as it should be: by induction on the calls,
since nothing changes after the end. -/
theorem grounded_of_not_endsAloft (hpending : shot.bullet.phase = .pending)
    (hflight : shot.bullet.flight = none) (hcalls : Vital calls)
    (hends : ∀ earlier made, earlier ++ [made] <+: calls → ¬ (shot.after earlier).EndsAloft made) :
    (shot.after calls).bullet.Grounded := by
  induction calls using List.reverseRecOn with
  | nil =>
      intro hflies
      exact nomatch (isFlying_of_pending hflight hcalls hpending).symm.trans hflies
  | append_singleton calls made ih =>
      obtain ⟨hearlier, hmade⟩ := List.forall_mem_append.mp hcalls
      have hgrounded := ih hearlier fun earlier other hbefore =>
        hends earlier other (hbefore.trans (List.prefix_append _ _))
      intro hflies
      cases hphase : (shot.after (calls ++ [made])).bullet.phase with
      | active => rfl
      | pending => exact nomatch (isFlying_of_pending hflight hcalls hphase).symm.trans hflies
      | ended =>
          by_cases hended : (shot.after calls).bullet.phase = .ended
          · have hsame : ((shot.after calls).perform made.1 made.2).2.1.bullet =
                (shot.after calls).bullet :=
              perform_of_ended (hmade made (List.mem_singleton_self made)) hended
            rw [after_concat, hsame] at hflies
            exact nomatch hended.symm.trans (hgrounded hflies)
          · rw [after_concat] at hflies hphase
            exact absurd ⟨hended, hphase, hflies⟩ (hends calls made (List.prefix_refl _))

theorem endsAloft_finish_iff (hactive : shot.bullet.phase = .active) (around : Surroundings)
    (reason : Option EndReason) :
    shot.EndsAloft (around, .finish reason) ↔
      shot.bullet.isFlying = true ∨
      (shot.perform around (.finish reason)).2.1.bullet.flight ≠ shot.bullet.flight := by
  have hfinish := (shot.perform_orderly around (.finish reason)).finish reason rfl
  rw [if_pos hactive] at hfinish
  have hlofts : shot.bullet.Lofts (shot.perform around (.finish reason)).2.1.bullet :=
    Turn.lofts_finish shot.fire_soars ⟨shot.bullet, around, []⟩ hactive reason
  rw [← hlofts.isFlying_iff]
  exact ⟨fun haloft => haloft.2.2, fun hflies => ⟨by simp [hactive], hfinish.1, hflies⟩⟩

theorem endsAloft_update_iff (hbook : shot.book = .empty) {flight : Flight}
    (hflies : shot.bullet.Flies flight) (around : Surroundings) (dt : Float32) :
    shot.EndsAloft (around, .update dt) ↔
      (shot.perform around (.update dt)).2.1.bullet.phase = .ended ∧
        (shot.perform around (.update dt)).2.1.bullet.flight ≠
          some { flight with active := false } := by
  have hperform : (shot.perform around (.update dt)).2.1.bullet =
      (Turn.update shot.rules dt ⟨shot.bullet, around, []⟩).bullet := by
    rw [← fire_of_empty hbook]
    rfl
  have hlofts : (shot.perform around (.update dt)).2.1.bullet.phase = .ended →
      (shot.bullet.landed flight dt).Lofts (shot.perform around (.update dt)).2.1.bullet := by
    rw [hperform]
    exact Turn.lofts_update_of_ended shot ⟨shot.bullet, around, []⟩ hflies
  constructor
  · rintro ⟨-, hended, haloft⟩
    exact ⟨hended, ((hlofts hended).isFlying_iff.mp haloft).resolve_left
      (by simp [Bullet.isFlying, Bullet.landed])⟩
  · rintro ⟨hended, hother⟩
    exact ⟨by simp [hflies.phase], hended, (hlofts hended).isFlying_iff.mpr (.inr hother)⟩

theorem not_endsAloft_start (hbook : shot.book = .empty) (around : Surroundings)
    (link : Option Link) :
    ¬ shot.EndsAloft (around, .start link) := by
  rintro ⟨hphase, hended, -⟩
  have hperform : (shot.perform around (.start link)).2.1.bullet =
      ((Call.start link).perform shot.rules ⟨shot.bullet, around, []⟩).2.bullet := by
    rw [← fire_of_empty hbook]
    rfl
  rw [hperform, Call.perform, Turn.start_eq] at hended
  by_cases hpending : shot.bullet.phase = .pending
  · rw [if_pos hpending] at hended
    have hsteered := shot.rules_steered .bulletStart (Turn.opened ⟨shot.bullet, around, []⟩ link)
    have hactive : (shot.rules .bulletStart
        (Turn.opened ⟨shot.bullet, around, []⟩ link)).bullet.phase = .active := by
      rw [hsteered.bullet]
      rfl
    dsimp only at hended
    rw [if_pos hactive] at hended
    exact absurd (hended.symm.trans hactive) (by decide)
  · rw [if_neg hpending] at hended
    exact hphase hended

theorem airborne (hpending : shot.bullet.phase = .pending)
    (hflight : shot.bullet.flight = none) : shot.Airborne where
  run := by
    intro calls hcalls
    constructor
    · rintro hgrounded earlier made hbefore ⟨-, hended, hflies⟩
      rw [← after_concat] at hended hflies
      exact nomatch hended.symm.trans (hgrounded _ hbefore hflies)
    · intro hends earlier hbefore
      exact grounded_of_not_endsAloft hpending hflight
        (fun made hmade => hcalls made (hbefore.subset hmade))
        fun first made hfirst => hends first made (hfirst.trans hbefore)
  cut := by
    intro calls around reason _ hactive
    rw [after_concat]
    exact endsAloft_finish_iff hactive around reason
  opening := by
    intro hbook calls around link _
    exact not_endsAloft_start ((shot.book_after calls).trans hbook) around link
  landing := by
    intro hbook calls around dt flight _ hflies
    rw [after_concat]
    exact endsAloft_update_iff ((shot.book_after calls).trans hbook) hflies around dt
  ever := by
    constructor
    · intro hgrounded calls hcalls
      by_contra hflies
      rw [Bool.not_eq_false] at hflies
      have hactive := hgrounded calls hcalls hflies
      let around : Surroundings := { index := .empty, hosts := fun _ => .silent }
      have hlonger : Vital (calls ++ [(around, .finish none)]) :=
        List.forall_mem_append.mpr ⟨hcalls, List.forall_mem_singleton.mpr trivial⟩
      obtain ⟨-, hended, haloft⟩ := (endsAloft_finish_iff hactive around none).mpr (.inl hflies)
      rw [← after_concat] at hended haloft
      exact nomatch hended.symm.trans (hgrounded _ hlonger haloft)
    · intro hnever calls hcalls hflies
      exact nomatch (hnever calls hcalls).symm.trans hflies

/-! A bullet that sets out for a point as it starts, and is ended from outside on its way. -/

def messengerText : String :=
  "\x7b\"id\": 1, \"name\": \"b\", \"modelId\": \"m\", \"segments\": [\x7b\"id\": 1, \"triggers\": [" ++
    "\x7b\"eventType\": \"bulletStart\", \"actions\": [\x7b\"type\": \"flyToTarget\", \"params\": " ++
    "\x7b\"targetPosition\": \x7b\"x\": 10, \"y\": 0, \"z\": 0\x7d, \"speed\": 3\x7d\x7d]\x7d]\x7d]\x7d"

def callBack : List (Surroundings × Call) :=
  let around : Surroundings := { index := .empty, hosts := fun _ => .silent }
  [(around, .start none), (around, .finish (some (.other "expired")))]

theorem recalled_not_grounded :
    ∃ blueprint, Stored.ofText? messengerText = some blueprint ∧ Vital callBack ∧
      ¬ ((create ⟨1⟩ blueprint .empty 0 .zero).after callBack).bullet.Grounded := by
  have hend : (Stored.ofText? messengerText).map (fun blueprint =>
      let bullet := ((create ⟨1⟩ blueprint .empty 0 .zero).after callBack).bullet
      (bullet.phase, bullet.isFlying)) = some (.ended, true) := by
    -- The text is read as the list of its characters, which is not computed from its bytes.
    unfold Stored.ofText? messengerText
    erw [← String.ofList_append, ← String.ofList_append, Json.read?_ofList]
    decide +kernel
  obtain ⟨blueprint, htext, hbullet⟩ := Option.map_eq_some_iff.mp hend
  obtain ⟨hphase, hflies⟩ := Prod.mk.inj hbullet
  refine ⟨blueprint, htext, ?_, fun hgrounded => ?_⟩
  · simp [Vital, callBack, Call.IsVital]
  · exact nomatch hphase.symm.trans (hgrounded hflies)

theorem arrow_airborne :
    let shot : Shot := { bullet := .create ⟨9⟩ ⟨1, "", none, "", []⟩ 0 .zero, program := arrow, book := .empty }
    shot.bullet.phase = .pending ∧ shot.bullet.flight = none ∧ shot.Airborne :=
  ⟨rfl, rfl, airborne rfl rfl⟩

end Shot

end Volley
