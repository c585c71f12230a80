import Volley.Proofs.Bullet.Lifecycle
import Volley.Proofs.Program.Dialogue

/-!
# What bullets look up

A bullet looks a unit up in its context when a condition measures the distance to it, when a flight
to it is ordered, and when a flight goes on that was ordered in this context. A bullet that has
been started keeps its context, and nothing that it does changes its surroundings. So all lookups
of a call, those of the rules and scripts that run within it included, are answered by the context
that the bullet had at the beginning.
-/

namespace Volley

/-- A unit that has been looked up, and where it was found. -/
structure Lookup where
  unit : ActorId
  found : Option Vec3
  deriving DecidableEq, Repr

/-! ## The lookups of a call -/

/-- What the rules that wait for a cue look up. -/
abbrev Turn.Asking := Cue → Turn → List Lookup

namespace Turn

def lookup (turn : Turn) (unit : ActorId) : Lookup :=
  { unit, found := turn.bullet.locator turn.around unit }

def aim (turn : Turn) (target : Target) : List Lookup :=
  target.unit.toList.map turn.lookup

def askFinish (asking : Asking) (reason : Option EndReason) (turn : Turn) : List Lookup :=
  if turn.bullet.phase = .active then asking .bulletEnd (turn.closed reason) else []

/-- The lookups of the rules that run when a flight is over. -/
def askStepped (fire : Fire) (asking : Asking) (flight : Flight)
    (turn : Turn) : Flight.Step → List Lookup
  | .hit =>
      if flight.plan.stopOnHit then asking .bulletHit turn ++
        askFinish asking (some .hit) (fire .bulletHit turn) else []
  | .targetLost => if flight.plan.stopOnHit then askFinish asking (some .targetLost) turn else []
  | _ => []

/-- A flight under way looks its own target up first. It does not ask the context of the bullet if
it was ordered before the bullet had one. -/
def askPursue (fire : Fire) (asking : Asking) (flight : Flight) (dt : Float32)
    (turn : Turn) : List Lookup :=
  (if turn.bullet.guide = turn.bullet.link then turn.aim flight.plan.target else []) ++
    let (next, step) := flight.update (turn.bullet.guidance turn.around)
      turn.bullet.actor.position dt
    askStepped fire asking flight
      { turn with bullet := { turn.bullet with flight := some next } } step

def askUpdate (fire : Fire) (asking : Asking) (dt : Float32) (turn : Turn) : List Lookup :=
  if turn.bullet.phase = .active then
    match turn.bullet.flight with
    | some flight => if flight.active then askPursue fire asking flight dt (turn.older dt) else []
    | none => []
  else []

end Turn

def Call.lookups (fire : Turn.Fire) (asking : Turn.Asking) (turn : Turn) : Call → List Lookup
  | .start link => if turn.bullet.phase =
      .pending then asking .bulletStart (turn.opened link) else []
  | .update dt => turn.askUpdate fire asking dt
  | .finish reason => turn.askFinish asking reason
  | .fly order => turn.aim (turn.bullet.flightTarget turn.around order)
  | _ => []

def Script.lookups (fire : Turn.Fire) (asking : Turn.Asking) : Script → Turn → List Lookup
  | .done, _ => []
  | .call first next, turn =>
      let (reply, after) := first.perform fire turn
      first.lookups fire asking turn ++ (next reply after.bullet).lookups fire asking after

/-- The lookups of the custom action with a name. -/
def ScriptBook.lookups (book : ScriptBook) (fire : Turn.Fire) (asking : Turn.Asking) (name : String)
    (params : FreeForm) (turn : Turn) : List Lookup :=
  match book.actions.find? name with
  | some action => (action params turn.bullet).lookups fire asking turn
  | none => []

/-- Custom conditions see the bullet only, so they look nothing up. -/
def HostCall.lookups (scripts : String → FreeForm → Turn → List Lookup)
    (turn : Turn) : HostCall → List Lookup
  | .unitPosition unit => [turn.lookup unit]
  | .fly order => turn.aim (turn.bullet.flightTarget turn.around order)
  | .action name params => scripts name params turn
  | _ => []

def Dialogue.lookups {α : Type} (handlers : Handlers Turn)
    (scripts : String → FreeForm → Turn → List Lookup) :
    Dialogue α → Turn → List Lookup
  | .done _, _ => []
  | .call said next, turn =>
      let (reply, after) := said.answer handlers turn
      said.lookups scripts turn ++ (next reply).lookups handlers scripts after

namespace Shot

/-- What rules look up, with the rules that run within them down to the given depth. -/
def asking (program : Program) (book : ScriptBook) : (depth : Nat) → Turn.Asking
  | 0 => fun _ _ => []
  | depth + 1 => fun cue turn =>
      let handlers := book.handlers (fire program book depth)
      (program.spoken handlers.registry cue).lookups handlers
        (book.lookups (fire program book depth) (asking program book depth)) turn

/-- All that is looked up in the course of a call from outside. -/
def lookups (shot : Shot) (around : Surroundings) (call : Call) : List Lookup :=
  call.lookups (fire shot.program shot.book nesting) (asking shot.program shot.book nesting)
    { bullet := shot.bullet, around, effects := [] }

end Shot

/-! ## Where the answers come from -/

namespace Turn

/-- A bullet goes on in its life, and its surroundings stay as they are. -/
structure Abides (before after : Turn) : Prop where
  lives : Lives before after
  around : after.around = before.around

theorem keeps_around : Keeps (fun _ => True) fun before after => after.around = before.around where
  refl _ := rfl
  trans hfirst hsecond := hsecond.trans hfirst
  tell _ _ _ := rfl
  edit _ _ _ := rfl
  retain _ _ _ := rfl
  active _ := trivial
  rotation _ := trivial
  translate _ := trivial

theorem Abides.calls : Call.Keep (fun _ => True) Abides where
  host :=
    { refl := fun turn => ⟨.refl turn, rfl⟩
      trans := fun hfirst hsecond =>
        ⟨hfirst.lives.trans hsecond.lives, hsecond.around.trans hfirst.around⟩
      orderFlight := fun order turn =>
        ⟨Lives.calls.host.orderFlight order turn, keeps_around.routine.fly turn order⟩
      orderDamage := fun order turn =>
        ⟨Lives.calls.host.orderDamage order turn, keeps_around.routine.damage turn order⟩
      announce := fun segment cue turn => ⟨Lives.calls.host.announce segment cue turn, rfl⟩
      note := fun notice turn => ⟨Lives.calls.host.note notice turn, rfl⟩ }
  perform hfire _ hcall turn :=
    ⟨Lives.calls.perform (fun cue turn => (hfire cue turn).lives) hcall turn,
      keeps_around.calls.perform (fun cue turn => (hfire cue turn).around) hcall turn⟩

theorem Abides.fire (program : Program) (book : ScriptBook) (depth : Nat) (cue : Cue)
    (turn : Turn) :
    Abides turn (Shot.fire program book depth cue turn) :=
  Shot.fire_keeps Abides.calls program book.within_true depth cue turn

theorem Abides.handlers {fire : Fire} (hfire : ∀ cue turn, Abides turn (fire cue turn))
    (book : ScriptBook) :
    (book.handlers fire).Keep Abides := by
  intro name action haction params turn
  obtain ⟨script, -, rfl⟩ := Option.map_eq_some_iff.mp haction
  exact Script.perform_keeps Abides.calls hfire (script params turn.bullet).within_true turn

/-- A bullet that has been started and locates units by `sight`. -/
structure Sees (sight : Locator) (turn : Turn) : Prop where
  begun : turn.bullet.phase ≠ .pending
  locator : turn.bullet.locator turn.around = sight

variable {sight : Locator} {before after turn : Turn}

theorem Sees.abides (hsees : before.Sees sight)
    (habides : Abides before after) : after.Sees sight := by
  obtain ⟨told, hcourse, -⟩ := habides.lives.course
  refine ⟨hcourse.begun hsees.begun, ?_⟩
  rw [← hsees.locator, habides.around, Bullet.locator, Bullet.locator, hcourse.link_eq hsees.begun]

end Turn

/-- All that has been looked up was found by `sight`. -/
def Lookup.AllBy (sight : Locator) (lookups : List Lookup) : Prop :=
  ∀ lookup ∈ lookups, lookup.found = sight lookup.unit

namespace Lookup

variable {sight : Locator} {first second : List Lookup}

theorem allBy_nil : AllBy sight [] :=
  List.forall_mem_nil _

theorem AllBy.append (hfirst : AllBy sight first)
    (hsecond : AllBy sight second) : AllBy sight (first ++ second) :=
  List.forall_mem_append.mpr ⟨hfirst, hsecond⟩

end Lookup

open Lookup (AllBy allBy_nil)

theorem HostCall.answer_keeps {η : Type} [TriggerHost η] {R : η → η → Prop}
    (hR : TriggerHost.Keeps R) {handlers : Handlers η} (hhandlers : handlers.Keep R)
    (said : HostCall) (host : η) :
    R host (said.answer handlers host).2 := by
  cases said with
  | fly order => exact hR.orderFlight order host
  | damage order => exact hR.orderDamage order host
  | announce segment cue => exact hR.announce segment cue host
  | note notice => exact hR.note notice host
  | action name params =>
      rw [answer]
      cases haction : handlers.action name with
      | none => exact hR.refl host
      | some action => exact hhandlers name action haction params host
  | _ => exact hR.refl host

section Answers

variable {sight : Locator} {turn : Turn}

theorem Turn.Sees.lookup (hsees : turn.Sees sight)
    (unit : ActorId) : (turn.lookup unit).found = sight unit :=
  congrFun hsees.locator unit

theorem Turn.Sees.aim (hsees : turn.Sees sight)
    (target : Target) : AllBy sight (turn.aim target) := by
  intro lookup hlookup
  obtain ⟨unit, -, rfl⟩ := List.mem_map.mp hlookup
  exact hsees.lookup unit

variable {fire : Turn.Fire} {asking : Turn.Asking}
  (hfire : ∀ cue turn, Turn.Abides turn (fire cue turn))
  (hasking : ∀ cue turn, turn.Sees sight → AllBy sight (asking cue turn))

include hasking

theorem Turn.Sees.askFinish (hsees : turn.Sees sight) (reason : Option EndReason) :
    AllBy sight (turn.askFinish asking reason) := by
  rw [Turn.askFinish]
  split
  · exact hasking _ _ ⟨nofun, hsees.locator⟩
  · exact allBy_nil

include hfire

theorem Turn.Sees.askPursue (hsees : turn.Sees sight) (flight : Flight) (dt : Float32) :
    AllBy sight (turn.askPursue fire asking flight dt) := by
  have haim : AllBy sight (if turn.bullet.guide = turn.bullet.link then turn.aim flight.plan.target
      else []) := by
    split
    · exact hsees.aim _
    · exact allBy_nil
  refine haim.append ?_
  obtain ⟨next, step⟩ := flight.update (turn.bullet.guidance turn.around)
    turn.bullet.actor.position dt
  have hflown : ({ turn with bullet := { turn.bullet with flight := some next } } : Turn).Sees
    sight :=
    ⟨hsees.begun, hsees.locator⟩
  cases step with
  | hit =>
      dsimp only [Turn.askStepped]
      split
      · exact (hasking _ _ hflown).append ((hflown.abides (hfire _ _)).askFinish hasking _)
      · exact allBy_nil
  | targetLost =>
      dsimp only [Turn.askStepped]
      split
      · exact hflown.askFinish hasking _
      · exact allBy_nil
  | _ => exact allBy_nil

theorem Turn.Sees.askUpdate (hsees : turn.Sees sight) (dt : Float32) :
    AllBy sight (turn.askUpdate fire asking dt) := by
  have holder : (turn.older dt).Sees sight := ⟨hsees.begun, hsees.locator⟩
  rw [Turn.askUpdate]
  split
  · split
    · split
      · exact holder.askPursue hfire hasking _ dt
      · exact allBy_nil
    · exact allBy_nil
  · exact allBy_nil

/-- A bullet that has been started cannot be started again. -/
theorem Turn.Sees.call (hsees : turn.Sees sight) (call : Call) :
    AllBy sight (call.lookups fire asking turn) := by
  cases call with
  | start link =>
      rw [Call.lookups, if_neg hsees.begun]
      exact allBy_nil
  | update dt => exact hsees.askUpdate hfire hasking dt
  | finish reason => exact hsees.askFinish hasking reason
  | fly order => exact hsees.aim _
  | _ => exact allBy_nil

theorem Turn.Sees.script (hsees : turn.Sees sight) (script : Script) :
    AllBy sight (script.lookups fire asking turn) := by
  induction script generalizing turn with
  | done => exact allBy_nil
  | call first next ih =>
      have hafter := hsees.abides (Turn.Abides.calls.perform hfire first.within_true turn)
      exact (hsees.call hfire hasking first).append (ih _ _ hafter)

end Answers

theorem Turn.Sees.dialogue {α : Type} {sight : Locator} {handlers : Handlers Turn}
    {scripts : String → FreeForm → Turn → List Lookup} (hhandlers : handlers.Keep Turn.Abides)
    (hscripts : ∀ name params turn, turn.Sees sight → AllBy sight (scripts name params turn))
    {turn : Turn} (hsees : turn.Sees sight) (dialogue : Dialogue α) :
    AllBy sight (dialogue.lookups handlers scripts turn) := by
  induction dialogue generalizing turn with
  | done value => exact allBy_nil
  | call said next ih =>
      have hsaid : AllBy sight (said.lookups scripts turn) := by
        cases said with
        | unitPosition unit => exact List.forall_mem_singleton.mpr (hsees.lookup unit)
        | fly order => exact hsees.aim _
        | action name params => exact hscripts name params turn hsees
        | _ => exact allBy_nil
      have hafter := hsees.abides (said.answer_keeps Turn.Abides.calls.host hhandlers turn)
      exact hsaid.append (ih _ hafter)

namespace Shot

/-- By induction on the depth, since the scripts of one depth run their rules one deeper. -/
theorem asking_allBy (program : Program) (book : ScriptBook) (depth : Nat) {sight : Locator}
    (cue : Cue) (turn : Turn) (hsees : turn.Sees sight) :
    AllBy sight (asking program book depth cue turn) := by
  induction depth generalizing cue turn with
  | zero => exact allBy_nil
  | succ depth ih =>
      have hfire := Turn.Abides.fire program book depth
      refine hsees.dialogue (Turn.Abides.handlers hfire book) (fun name params turn hsees => ?_) _
      rw [ScriptBook.lookups]
      split
      · exact hsees.script hfire ih _
      · exact allBy_nil

/-- Whatever a pending bullet looks up when it is started is answered by the
context that it is given. -/
theorem lookups_start (shot : Shot) (around : Surroundings) (link : Link) :
    AllBy (link.context around).unitPosition (shot.lookups around (.start (some link))) := by
  rw [lookups, Call.lookups]
  split
  · exact asking_allBy shot.program shot.book nesting _ _ ⟨nofun, rfl⟩
  · exact allBy_nil

/-- Whatever a bullet looks up when it ends is answered by the context that it
has been given before. -/
theorem lookups_finish (shot : Shot) (around : Surroundings) (reason : Option EndReason) :
    AllBy (shot.bullet.locator around) (shot.lookups around (.finish reason)) := by
  rw [lookups, Call.lookups, Turn.askFinish]
  split
  · exact asking_allBy shot.program shot.book nesting _ _ ⟨nofun, rfl⟩
  · exact allBy_nil

end Shot

end Volley
