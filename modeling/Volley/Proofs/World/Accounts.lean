import Mathlib.Data.List.TakeWhile
import Volley.Proofs.World.Stream

/-!
# The accounts of a world's bullets

Under each id a run keeps account of the bullets that are spawned, of their ends and of the reports
of these to hosts. The accounts are a list of tales, one for each bullet that has come to its end,
and only a bullet that is still active has a tale that is not told to the end. The queue of the
world hears of an end unless a script has unsubscribed it.
-/

open scoped List

namespace Volley

open Effect (milestones)

namespace World

/-! ## Accounts -/

inductive Entry where
  | spawned (host : Option HostId)
  | ended (reason : Option EndReason)
  | reported (host : HostId) (reason : Option EndReason)
  deriving DecidableEq

namespace Entry

/-- What an effect adds to the accounts of an id. -/
def of? (id : ActorId) : Effect → Option Entry
  | .emitted (.ended bullet reason) => if bullet = id then some (.ended reason) else none
  | .endReported host bullet reason => if bullet = id then some (.reported host reason) else none
  | _ => none

end Entry

def Moment.entries (id : ActorId) (moment : Moment) : List Entry :=
  (moment.before.spawned? id moment.act).toList.map .spawned ++
    moment.effects.filterMap (Entry.of? id)

/-- The accounts of an id, from the beginning. -/
def chronicle (id : ActorId) : List Moment → List Entry
  | [] => []
  | moment :: earlier => chronicle id earlier ++ moment.entries id

/-- The reasons of the ends under an id. -/
def ends (id : ActorId) (events : List BulletEvent) : List (Option EndReason) :=
  events.filterMap fun
    | .ended bullet reason => if bullet = id then some reason else none
    | _ => none

/-- A bullet that has come to its end: the host it was spawned for, and why it ended. -/
structure Tale where
  host : Option HostId
  reason : Option EndReason

def Tale.entries (tale : Tale) : List Entry :=
  .spawned tale.host :: .ended tale.reason :: tale.host.toList.map
    fun host => .reported host tale.reason

def tell (tales : List Tale) : List Entry :=
  tales.flatMap Tale.entries

variable {id : ActorId} {entries : List Entry} {first second : Option Bullet} {bullet : Bullet}

theorem tell_concat (tales : List Tale) (tale : Tale) :
    tell (tales ++ [tale]) = tell tales ++ tale.entries := by
  rw [tell, List.flatMap_append, List.flatMap_singleton]
  rfl

theorem filterMap_of?_milestones (id : ActorId) (effects : List Effect) :
    (milestones id effects).filterMap (Entry.of? id) = effects.filterMap (Entry.of? id) := by
  rw [milestones, List.filterMap_filter]
  refine List.filterMap_congr fun effect _ => ite_eq_left_iff.mpr fun hother => ?_
  cases effect with
  | emitted event =>
      cases event with
      | ended bullet reason => exact (if_neg fun hsame => hother (decide_eq_true hsame)).symm
      | _ => rfl
  | endReported host bullet reason => exact (if_neg fun hsame => hother (decide_eq_true hsame)).symm
  | _ => rfl

/-- The accounts of an id, by the bullet that is under it now. -/
inductive Accounted (id : ActorId) : Option Bullet → List Entry → Prop
  | gone (tales : List Tale) : Accounted id none (tell tales)
  | active (tales : List Tale) {bullet : Bullet} {host : Option HostId} (hid : bullet.id = id)
      (hactive : bullet.phase = .active) (hlink : bullet.link = some (.world host)) :
      Accounted id (some bullet) (tell tales ++ [.spawned host])
  | ended (tales : List Tale) {bullet : Bullet} (hid : bullet.id = id)
      (hended : bullet.phase = .ended) :
      Accounted id (some bullet) (tell tales)

theorem filterMap_of?_farewell {host : Option HostId} (hlink : bullet.link = some (.world host)) :
    bullet.farewell.filterMap (Entry.of? bullet.id) =
      .ended bullet.endReason :: host.toList.map fun host => .reported host bullet.endReason := by
  rw [Bullet.farewell, hlink]
  cases host <;> simp [Link.host?, Entry.of?]

/-- When a bullet has ended, its tale is told to the end. -/
theorem tell_farewell (tales : List Tale) {host : Option HostId}
    (hlink : bullet.link = some (.world host)) :
    tell tales ++ [.spawned host] ++ bullet.farewell.filterMap (Entry.of? bullet.id) =
      tell (tales ++ [⟨host, bullet.endReason⟩]) := by
  rw [tell_concat, filterMap_of?_farewell hlink, List.append_assoc]
  rfl

theorem Accounted.goes (haccounted : Accounted id first entries) {effects : List Effect}
    (hfate : Bullet.Fate first second (milestones id effects)) :
    Accounted id second (entries ++ effects.filterMap (Entry.of? id)) := by
  rw [← filterMap_of?_milestones]
  generalize milestones id effects = told at hfate
  cases haccounted with
  | gone tales =>
      cases hfate with
      | absent =>
          rw [List.filterMap_nil, List.append_nil]
          exact .gone tales
  | active tales hid hactive hlink =>
      cases hfate with
      | stays hsame hcourse =>
          obtain ⟨hkept, ⟨hstill, rfl⟩ | ⟨hended, rfl⟩⟩ := hcourse.of_active hactive
          · rw [List.filterMap_nil, List.append_nil]
            exact .active tales (hsame.trans hid) hstill (hkept.trans hlink)
          · rw [← hid, ← hsame, tell_farewell tales (hkept.trans hlink)]
            exact .ended _ rfl hended
      | leaves hsame hcourse hended =>
          obtain ⟨hkept, ⟨hstill, -⟩ | ⟨-, rfl⟩⟩ := hcourse.of_active hactive
          · exact nomatch hended.symm.trans hstill
          · rw [← hid, ← hsame, tell_farewell tales (hkept.trans hlink)]
            exact .gone _
  | ended tales hid hended =>
      cases hfate with
      | stays hsame hcourse =>
          obtain ⟨rfl, hstill, -⟩ := hcourse.of_ended hended
          rw [List.filterMap_nil, List.append_nil]
          exact .ended tales (hsame.trans hid) hstill
      | leaves hsame hcourse hlast =>
          obtain ⟨rfl, -⟩ := hcourse.of_ended hended
          rw [List.filterMap_nil, List.append_nil]
          exact .gone tales

/-- A bullet that has been spawned is active, unless its first rules have ended it. -/
theorem Accounted.spawned (haccounted : Accounted id none entries) {host : Option HostId}
    (hid : bullet.id = id) (hlink : bullet.link = some (.world host))
    (hbegun : bullet.phase ≠ .pending) {effects : List Effect}
    (hlived : bullet.Lived (milestones id effects)) :
    Accounted id (some bullet) (entries ++
      ([.spawned host] ++ effects.filterMap (Entry.of? id))) := by
  rw [← filterMap_of?_milestones, ← List.append_assoc]
  generalize milestones id effects = told at hlived
  cases haccounted with
  | gone tales =>
      cases hlived with
      | pending hphase => exact (hbegun hphase).elim
      | active hactive =>
          have hquiet : [bullet.greeting].filterMap (Entry.of? id) = [] := rfl
          rw [hquiet, List.append_nil]
          exact .active tales hid hactive hlink
      | @ended hended started hstarted =>
          have hquiet : started.filterMap (Entry.of? id) = [] := by
            refine List.filterMap_eq_nil_iff.mpr fun effect heffect => ?_
            rw [List.mem_singleton.mp (hstarted.subset heffect)]
            rfl
          rw [List.filterMap_append, hquiet, List.nil_append, ← hid, tell_farewell tales hlink]
          exact .ended _ rfl hended

/-! ## What a run keeps -/

/-- No two bullets carry the same id, and under the given id the accounts are in order. -/
structure InOrder (id : ActorId) (history : List Moment) (world : World) : Prop where
  apart : Apart world.shots
  begun : ∀ bullet, under id world.shots = some bullet → bullet.phase ≠ .pending
  accounted : Accounted id (under id world.shots) (chronicle id history)

theorem InOrder.next {history : List Moment} {moment : Moment}
    (hinorder : InOrder id history moment.before) (hact : moment.act ≠ .reset)
    (hperform : moment.before.perform moment.act = some (moment.after, moment.effects)) :
    InOrder id (moment :: history) moment.after := by
  obtain ⟨hapart, hbegun, haccounted⟩ := hinorder
  have hapartNext := hapart.deed (deed_perform hperform)
  cases turnout_perform id hapart hbegun hact hperform with
  | goes hspawned hfate =>
      refine ⟨hapartNext, hfate.begun hbegun, ?_⟩
      rw [chronicle, Moment.entries, hspawned]
      exact haccounted.goes hfate
  | @spawned bullet hspawned hfree hunder hstarted hlink hlived =>
      rw [hfree] at haccounted
      obtain ⟨shot, -, hshot, hid⟩ := hapartNext.under_eq_some_iff.mp hunder
      refine ⟨hapartNext, ?_, ?_⟩
      · rw [hunder]
        rintro _ ⟨⟩
        exact hstarted
      · rw [chronicle, Moment.entries, hspawned, hunder]
        exact haccounted.spawned hid hlink hstarted hlived

def hosted : Moment :=
  (create .standard).1.moment (.setHost (some ⟨5⟩))

def thrown : Moment :=
  hosted.after.moment throwing

end World

end Volley
