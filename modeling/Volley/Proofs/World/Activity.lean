import Mathlib.Data.List.Induction
import Volley.Proofs.Bullet.Activity
import Volley.Proofs.World.Sight

/-!
# Active bullets in a world

Snapshots show the flag of a bullet's actor; ticks and the index go by the bullet's phase. The two
say the same until a host sets the flag to something else, and again as soon as the phase changes.
-/

namespace Volley

namespace Actor

/-- What a change sets the active flag to, if it does. -/
def Edit.flag? : Edit → Option Bool
  | .active value => some value
  | _ => none

/-- The flag that changes made one after the other leave, if they set it at all. -/
def flag? (changes : List Edit) : Option Bool :=
  (changes.filterMap Edit.flag?).getLast?

theorem active_editAll (actor : Actor) (changes : List Edit) :
    (actor.editAll changes).active = (flag? changes).getD actor.active := by
  induction changes using List.reverseRecOn with
  | nil => rfl
  | append_singleton earlier change ih =>
      have hlast : actor.editAll (earlier ++ [change]) = (actor.editAll earlier).edit change :=
        List.foldl_append ..
      rw [hlast, flag?, List.filterMap_append, List.getLast?_append]
      cases change with
      | active value => rfl
      | _ => exact ih

end Actor

namespace World

def Act.flag? (id : ActorId) : Act → Option Bool
  | .edit other changes => if other = id then Actor.flag? changes else none
  | _ => none

/-- What a host has last set the flag of the bullet under an id to, as long as the
phase under the id stays the same. -/
def override? (id : ActorId) : List Moment → Option Bool
  | [] => none
  | moment :: earlier =>
      match moment.act.flag? id with
      | some value => some value
      | none =>
          if (under id moment.after.shots).map Bullet.phase =
            (under id moment.before.shots).map Bullet.phase then
            override? id earlier
          else none

variable {world : World} {id : ActorId} {history : List Moment}

/-! ## How the flag goes -/

/-- Ticks leave a bullet its id and its scripts, and its flag follows its
phase unless a script interferes. -/
def Goes (old shot : Shot) : Prop :=
  shot.bullet.id = old.bullet.id ∧ shot.book = old.book ∧
    (old.book.Within Actor.Edit.SparesActivity → old.bullet.Follows shot.bullet)

theorem goes_progress : Progress Goes where
  refl shot := ⟨rfl, rfl, fun _ => .stays rfl rfl⟩
  trans := by
    rintro first second third ⟨hid, hbook, hfollows⟩ ⟨hlast, hsame, hlater⟩
    exact ⟨hlast.trans hid, hsame.trans hbook,
      fun hwithin => (hfollows hwithin).trans (hlater (hbook ▸ hwithin))⟩
  lived around dt shot := ⟨shot.lived_id around dt, rfl,
    fun hwithin => shot.perform_follows hwithin around trivial⟩

/-- The flag of each bullet is what a host has set it to, or else what the phase says. -/
def Flagged (history : List Moment) (world : World) : Prop :=
  ∀ shot ∈ world.shots,
    shot.bullet.actor.active = (override? shot.bullet.id history).getD shot.bullet.isActive

theorem Apart.under_bullet {shots : List Shot} (hapart : Apart shots) {shot : Shot}
    (hshot : shot ∈ shots) :
    under shot.bullet.id shots = some shot.bullet :=
  hapart.under_eq_some_iff.mpr ⟨shot, hshot, rfl, rfl⟩

theorem mem_ids_of_under {shots : List Shot} {bullet : Bullet}
    (hunder : under id shots = some bullet) :
    id ∈ shots.map fun shot => shot.bullet.id := by
  obtain ⟨shot, hfound, -⟩ := Option.map_eq_some_iff.mp hunder
  exact List.mem_map.mpr ⟨shot,
    List.mem_of_find?_eq_some hfound, by simpa using List.find?_some hfound⟩

section Next

variable {moment : Moment} {old shot : Shot}

theorem override?_cons (hflag : moment.act.flag? id = none) :
    override? id (moment :: history) =
      if (under id moment.after.shots).map Bullet.phase =
        (under id moment.before.shots).map Bullet.phase then
        override? id history
      else none := by
  rw [override?, hflag]

/-- As long as nobody interferes, the flag goes on as the phase does. -/
theorem flag_of_follows (hold : under shot.bullet.id moment.before.shots = some old.bullet)
    (hshot : under shot.bullet.id moment.after.shots = some shot.bullet)
    (hflag : moment.act.flag? shot.bullet.id = none) (hfollows : old.bullet.Follows shot.bullet)
    (hflagged : old.bullet.actor.active =
      (override? shot.bullet.id history).getD old.bullet.isActive) :
    shot.bullet.actor.active = (override? shot.bullet.id (moment :: history)).getD
      shot.bullet.isActive := by
  rw [override?_cons hflag, hold, hshot, Option.map_some, Option.map_some]
  cases hfollows with
  | stays hphase hkept =>
      rw [if_pos (congrArg some hphase), hkept, hflagged, Bullet.isActive_congr hphase]
  | turns hage hset =>
      rw [if_neg fun hsame => Nat.ne_of_gt hage (congrArg Phase.age (Option.some.inj hsame)), hset]
      rfl

theorem flag_of_launched (hold : under shot.bullet.id moment.before.shots = none)
    (hshot : under shot.bullet.id moment.after.shots = some shot.bullet)
    (hflag : moment.act.flag? shot.bullet.id = none)
    (hset : shot.bullet.actor.active = shot.bullet.isActive) :
    shot.bullet.actor.active = (override? shot.bullet.id (moment :: history)).getD
      shot.bullet.isActive := by
  rw [override?_cons hflag, hold, hshot, if_neg nofun, hset]
  rfl

theorem flag_of_edited {changes : List Actor.Edit}
    (hold : under shot.bullet.id moment.before.shots = some old.bullet)
    (hshot : under shot.bullet.id moment.after.shots = some shot.bullet)
    (hedited : shot = old.edited changes)
    (hflag : moment.act.flag? shot.bullet.id = Actor.flag? changes)
    (hflagged : old.bullet.actor.active =
      (override? shot.bullet.id history).getD old.bullet.isActive) :
    shot.bullet.actor.active = (override? shot.bullet.id (moment :: history)).getD
      shot.bullet.isActive := by
  have hactive : shot.bullet.actor.active = (Actor.flag? changes).getD old.bullet.actor.active := by
    rw [hedited]
    exact old.bullet.actor.active_editAll changes
  have hphase : shot.bullet.phase = old.bullet.phase := hedited ▸ rfl
  rw [hactive, override?, hflag]
  cases Actor.flag? changes with
  | some value => rfl
  | none =>
      dsimp only
      rw [hold, hshot, Option.map_some, Option.map_some, if_pos (congrArg some hphase),
        Bullet.isActive_congr hphase]
      exact hflagged

variable (hflagged : Flagged history moment.before) (hbefore : moment.before.Distinct)
  (hafter : moment.after.Distinct)
  (hperform : moment.before.perform moment.act = some (moment.after, moment.effects))

include hflagged hbefore hafter hperform

theorem Flagged.edit {id : ActorId} {changes : List Actor.Edit}
    (hact : moment.act = .edit id changes) :
    Flagged (moment :: history) moment.after := by
  intro shot hshot
  have hunder := hafter.apart.under_bullet hshot
  rw [hact] at hperform
  rw [hbefore.shots_edit hperform] at hshot
  obtain ⟨old, hold, hedited⟩ := List.mem_map.mp hshot
  have hflag : old.bullet.actor.active =
      (override? old.bullet.id history).getD old.bullet.isActive := hflagged old hold
  have hfound := hbefore.apart.under_bullet hold
  split at hedited
  · rename_i hid
    have hsame : shot.bullet.id = old.bullet.id := hedited ▸ old.id_edited changes
    rw [← hsame] at hflag hfound
    refine flag_of_edited hfound hunder hedited.symm ?_ hflag
    rw [hact, Act.flag?, if_pos (hid.symm.trans hsame.symm)]
  · rename_i hother
    subst hedited
    refine flag_of_follows hfound hunder ?_ (.stays rfl rfl) hflag
    rw [hact, Act.flag?, if_neg (Ne.symm hother)]

theorem Flagged.next
    (hscripts : ∀ shot ∈ moment.before.shots, shot.book.Within Actor.Edit.SparesActivity)
    (hbooks : ∀ book ∈ moment.act.books, book.Within Actor.Edit.SparesActivity) :
    Flagged (moment :: history) moment.after := by
  by_cases hact : ∃ id changes, moment.act = .edit id changes
  · obtain ⟨id, changes, hact⟩ := hact
    exact hflagged.edit hbefore hafter hperform hact
  · have hunset (id : ActorId) : moment.act.flag? id = none := by
      cases hother : moment.act with
      | edit other changes => exact (hact ⟨other, changes, hother⟩).elim
      | _ => rfl
    intro shot hshot
    have hunder := hafter.apart.under_bullet hshot
    cases (deed_perform hperform).origin goes_progress
        (fun id changes hedit => (hact ⟨id, changes, hedit⟩).elim) shot hshot with
    | lasted old hold hgone =>
        obtain ⟨hid, -, hfollows⟩ := hgone
        have hfound := hbefore.apart.under_bullet hold
        have hflag := hflagged old hold
        rw [← hid] at hfound hflag
        exact flag_of_follows hfound hunder (hunset _) (hfollows (hscripts old hold)) hflag
    | launched hosts young hfired hfree hpending hshot =>
        have hbook : young.book.Within Actor.Edit.SparesActivity :=
          hbooks _ (hfired ▸ List.mem_singleton.mpr rfl)
        obtain ⟨-, hbegun, -⟩ := moment.before.launch_of_pending hosts hpending
        have hid : shot.bullet.id = young.bullet.id := hshot ▸ Shot.perform_id _ _ _
        have hnone : under shot.bullet.id moment.before.shots = none := by
          rw [hid]
          exact under_of_actor? hfree
        refine flag_of_launched hnone hunder (hunset _) ?_
        have hfollows := @Shot.perform_follows { young with bullet := subscribe young.bullet } hbook
          (moment.before.reindex.around hosts) (.start (some (.world moment.before.host))) trivial
        rw [hshot]
        cases hfollows with
        | stays hphase => exact (hbegun (hphase.trans hpending)).elim
        | turns hage hset => exact hset

end Next

theorem Run.flagged {start : World} (hrun : Run start history world) (hfresh : start.Fresh)
    (hscripts : ∀ moment ∈ history, ∀ book ∈ moment.act.books,
      book.Within Actor.Edit.SparesActivity) :
    Flagged history world := by
  induction hrun with
  | start =>
      rw [Flagged, hfresh.shots]
      exact List.forall_mem_nil _
  | next hrun hperform ih =>
      obtain ⟨hbooks, hearlier⟩ := List.forall_mem_cons.mp hscripts
      exact (ih hearlier).next (hrun.named hfresh).distinct
        ((hrun.next hperform).named hfresh).distinct hperform
        (hrun.forall_book hfresh.shots hearlier) hbooks

/-! ## Worlds whose snapshots show what goes on -/

/-- A snapshot shows of each bullet whether it is under way. Whenever the index is
taken, it has the ids that a snapshot shows as active. And a tick leaves a bullet alone
that a snapshot shows as inactive. -/
structure Coherent (world : World) : Prop where
  shown : ∀ id bullet, under id world.shots = some bullet →
    world.snapshot.isActive id = bullet.isActive
  indexed : ∀ taken, taken = world.reindex ∨ (∃ dt, taken = world.played dt) →
    ∀ id, (taken.index.find? id).isSome = taken.snapshot.isActive id
  still : ∀ hosts dt, ∀ shot ∈ world.shots, world.snapshot.isActive shot.bullet.id = false →
    shot.lived ((world.played dt).around hosts) dt = shot ∧
    shot.tellings ((world.played dt).around hosts) dt = []

theorem Distinct.isActive_shot (hdistinct : world.Distinct) {shot : Shot}
    (hshot : shot ∈ world.shots) :
    world.snapshot.isActive shot.bullet.id = shot.bullet.actor.active := by
  have hfound : world.actor? shot.bullet.id = some shot.bullet.actor :=
    hdistinct.actor?_eq_some_iff.mpr
      ⟨List.mem_append_right _ (List.mem_map.mpr ⟨shot, hshot, rfl⟩), rfl⟩
  rw [Snapshot.isActive, hdistinct.snapshot_actor?, hfound]

/-- The flags say what the phases say. -/
def Frank (world : World) : Prop :=
  ∀ shot ∈ world.shots, shot.bullet.actor.active = shot.bullet.isActive

/-- A world in which the flags say what the phases say has a position for just
the actors shown as active. -/
theorem Distinct.isSome_stand? (hdistinct : world.Distinct) (hfrank : world.Frank) (id : ActorId) :
    (world.stand? id).isSome = world.snapshot.isActive id := by
  have hbullet : ((under id world.shots).filter Bullet.isActive).isSome =
      ((world.shot? id).map fun shot => shot.bullet.actor.active).getD false := by
    rw [under, ← shot?]
    cases hshot : world.shot? id with
    | none => rfl
    | some shot =>
        rw [Option.map_some, Option.map_some, Option.filter_some,
          hfrank shot (List.mem_of_find?_eq_some hshot)]
        cases shot.bullet.isActive <;> rfl
  rw [Snapshot.isActive, hdistinct.snapshot_actor?, stand?, actor?, Option.isSome_or,
    Option.isSome_map,
    Option.isSome_map]
  cases hunit : world.unit? id with
  | some unit =>
      rw [under_eq_none_iff.mpr (hdistinct.shot_ne_of_unit (hunit ▸ rfl)), Option.filter_none,
        Option.filter_some]
      cases hactive : unit.active <;> simp [hactive]
  | none =>
      rw [hbullet]
      cases world.shot? id <;> rfl

theorem Named.coherent (hnamed : world.Named) (hfrank : world.Frank) : world.Coherent where
  shown id bullet hunder := by
    obtain ⟨shot, hshot, rfl, rfl⟩ := hnamed.distinct.apart.under_eq_some_iff.mp hunder
    exact (hnamed.distinct.isActive_shot hshot).trans (hfrank shot hshot)
  indexed := by
    rintro _ (rfl | ⟨dt, rfl⟩) id
    · exact (congrArg Option.isSome (hnamed.distinct.find?_positions id)).trans
        (hnamed.distinct.isSome_stand? hfrank id)
    · rw [hnamed.find?_played, (hnamed.played dt).distinct.isSome_stand? hfrank]
  still hosts dt shot hshot hinactive := by
    rw [hnamed.distinct.isActive_shot hshot, hfrank shot hshot] at hinactive
    have hphase : shot.bullet.phase ≠ .active := of_decide_eq_false hinactive
    have hquiet := (shot.perform_orderly ((world.played dt).around hosts) (.update dt)).update
      dt rfl hphase
    rw [Shot.lived, Shot.tellings, Shot.perform, hquiet]
    exact ⟨rfl, rfl⟩

theorem Frank.runTicks (hfrank : world.Frank)
    (hscripts : ∀ shot ∈ world.shots, shot.book.Within Actor.Edit.SparesActivity)
    (hosts : HostId → Context) (dt : Float32) (count : Nat) :
    (World.runTicks hosts dt count world).1.Frank := by
  intro shot hshot
  obtain ⟨old, hold, -, -, hfollows⟩ := goes_progress.runTicks hosts dt count world shot hshot
  cases hfollows (hscripts old hold) with
  | stays hphase hflag =>
      exact hflag.trans ((hfrank old hold).trans (Bullet.isActive_congr hphase).symm)
  | turns hage hflag => exact hflag

/-- The changes that an act makes to an actor, and those of the scripts it
brings in, are allowed. -/
def Act.KeepsTo (allowed : Actor.Edit → Prop) (act : Act) : Prop :=
  (∀ id changes, act = .edit id changes → ∀ change ∈ changes, allowed change) ∧
    ∀ book ∈ act.books, book.Within allowed

/-- A world is coherent now and between all the ticks of a step. -/
def Steady (world : World) : Prop :=
  ∀ hosts dt count, (runTicks hosts dt count world).1.Coherent

theorem Steady.coherent (hsteady : world.Steady) : world.Coherent :=
  hsteady (fun _ => .silent) 0 0

theorem Run.steady_iff_override {start : World} (hrun : Run start history world)
    (hfresh : start.Fresh) (hscripts : ∀ moment ∈ history, ∀ book ∈ moment.act.books,
      book.Within Actor.Edit.SparesActivity) :
    world.Steady ↔
      ∀ id value bullet, override? id history = some value → under id world.shots = some bullet →
        value = bullet.isActive := by
  have hnamed := hrun.named hfresh
  have hapart := hnamed.distinct.apart
  have hflagged := hrun.flagged hfresh hscripts
  constructor
  · intro hsteady id value bullet hvalue hunder
    obtain ⟨shot, hshot, rfl, rfl⟩ := hapart.under_eq_some_iff.mp hunder
    have hflag := hflagged shot hshot
    rw [hvalue, ← hnamed.distinct.isActive_shot hshot] at hflag
    exact hflag.symm.trans (hsteady.coherent.shown _ _ hunder)
  · intro hvalues hosts dt count
    have hfrank : world.Frank := by
      intro shot hshot
      refine (hflagged shot hshot).trans ?_
      cases hvalue : override? shot.bullet.id history with
      | none => rfl
      | some value => exact hvalues _ value shot.bullet hvalue (hapart.under_bullet hshot)
    have hbooks := hrun.forall_book hfresh.shots hscripts
    exact (hnamed.runTicks hosts dt count).coherent (hfrank.runTicks hbooks hosts dt count)

theorem Act.KeepsTo.flag?_eq_none {act : Act} (hkeeps : act.KeepsTo Actor.Edit.SparesActivity)
    (id : ActorId) :
    act.flag? id = none := by
  cases act with
  | edit other changes =>
      have hspares := hkeeps.1 other changes rfl
      have hnone : changes.filterMap Actor.Edit.flag? = [] := by
        refine List.filterMap_eq_nil_iff.mpr fun change hchange => ?_
        cases change with
        | active value => exact (hspares _ hchange).elim
        | _ => rfl
      rw [flag?, Actor.flag?, hnone, List.getLast?_nil, ite_self]
  | _ => rfl

theorem override?_eq_none
    (hkeeps : ∀ moment ∈ history, moment.act.KeepsTo Actor.Edit.SparesActivity) (id : ActorId) :
    override? id history = none := by
  induction history with
  | nil => rfl
  | cons moment earlier ih =>
      obtain ⟨hfirst, hearlier⟩ := List.forall_mem_cons.mp hkeeps
      rw [override?_cons (hfirst.flag?_eq_none id), ih hearlier, ite_self]

/-! A dart is thrown from the place it is thrown at. A host may hush it before it hits,
or rouse it when it lies there. -/

def lobbed : Moment :=
  (create { Timing.standard with despawnEnded := false }).1.moment
    (.spawnShot (fun _ => .silent) (dart ⟨1⟩ { FlyOrder.standard with point := some .zero } .zero))

def hushed : Moment :=
  lobbed.after.moment (.edit ⟨1⟩ [.active false])

def landed : Moment :=
  lobbed.after.moment (.step (fun _ => .silent) 0.05)

def roused : Moment :=
  landed.after.moment (.edit ⟨1⟩ [.active true])

theorem lobbed_fresh : lobbed.before.Fresh :=
  ⟨rfl, List.forall_mem_nil _⟩

theorem hushed_run : Run lobbed.before [hushed, lobbed] hushed.after :=
  (Run.start.moment rfl).moment rfl

theorem roused_run : Run lobbed.before [roused, landed, lobbed] roused.after :=
  ((Run.start.moment rfl).moment (by decide +kernel)).moment (by decide +kernel)

theorem not_coherent_of_ne (id : ActorId) (value : Bool)
    (hshown : world.snapshot.isActive id = value)
    (hphase : (under id world.shots).map Bullet.isActive = some !value) : ¬world.Coherent := by
  intro hcoherent
  obtain ⟨bullet, hunder, hactive⟩ := Option.map_eq_some_iff.mp hphase
  rw [← hcoherent.shown id bullet hunder, hshown] at hactive
  exact (Bool.eq_not_self value).mp hactive

theorem hushed_not_coherent : ¬hushed.after.Coherent :=
  not_coherent_of_ne ⟨1⟩ false (by decide +kernel) rfl

theorem roused_not_coherent : ¬roused.after.Coherent :=
  not_coherent_of_ne ⟨1⟩ true (by decide +kernel) (by decide +kernel)

/-- What snapshots show of the activity of bullets is true, and the index and the ticks go
by it, in all runs with the given changes just if none of these changes sets the flag. If
only scripts leave the flag alone, then a run has come to such a world just if what a host
has last set the flag of a bullet to is what its phase says; a flag that was set before the
phase last changed does not count. -/
theorem steady_iff (allowed : Actor.Edit → Prop) :
    ((∀ {start world : World} {history : List Moment}, Run start history world → start.Fresh →
        (∀ moment ∈ history, moment.act.KeepsTo allowed) → world.Steady) ↔
      ∀ change, allowed change → change.SparesActivity) ∧
      ∀ {start world : World} {history : List Moment}, Run start history world → start.Fresh →
        (∀ moment ∈ history, ∀ book ∈ moment.act.books, book.Within Actor.Edit.SparesActivity) →
        (world.Steady ↔
          ∀ id value bullet, override? id history = some value →
          under id world.shots = some bullet →
            value = bullet.isActive) := by
  refine ⟨⟨fun hsteady change hchange => ?_, fun hspares => ?_⟩, Run.steady_iff_override⟩
  · have hdart (hosts : HostId → Context) (order : FlyOrder) (position : Vec3) :
        (Act.spawnShot hosts (dart ⟨1⟩ order position)).KeepsTo allowed :=
      ⟨nofun, List.forall_mem_singleton.mpr (ScriptBook.within_empty allowed)⟩
    cases change with
    | active value =>
        have hedit : (Act.edit ⟨1⟩ [.active value]).KeepsTo allowed := by
          refine ⟨?_, List.forall_mem_nil _⟩
          rintro _ _ ⟨⟩
          exact List.forall_mem_singleton.mpr hchange
        have hstep (dt : Float32) : (Act.step (fun _ => .silent) dt).KeepsTo allowed :=
          ⟨nofun, List.forall_mem_nil _⟩
        have hthrown : ∀ moment ∈ [lobbed], moment.act.KeepsTo allowed :=
          List.forall_mem_singleton.mpr (hdart _ _ _)
        cases value with
        | false =>
            refine hushed_not_coherent (hsteady hushed_run lobbed_fresh ?_).coherent
            exact List.forall_mem_cons.mpr ⟨hedit, hthrown⟩
        | true =>
            refine roused_not_coherent (hsteady roused_run lobbed_fresh ?_).coherent
            exact List.forall_mem_cons.mpr ⟨hedit, List.forall_mem_cons.mpr ⟨hstep _, hthrown⟩⟩
    | _ => trivial
  · intro start world history hrun hfresh hkeeps
    have hspared : ∀ moment ∈ history, moment.act.KeepsTo Actor.Edit.SparesActivity :=
      fun moment hmoment =>
      ⟨fun id changes hact change hchange =>
        hspares change ((hkeeps moment hmoment).1 id changes hact change hchange),
        fun book hbook => ((hkeeps moment hmoment).2 book hbook).mono hspares⟩
    refine (hrun.steady_iff_override hfresh fun moment hmoment => (hspared moment hmoment).2).mpr ?_
    intro id value bullet hvalue
    rw [override?_eq_none hspared] at hvalue
    cases hvalue

/-- The snapshot shows the dart as inactive. Still the index has it, and a
tick ends it with a hit. -/
theorem hushed_hit :
    Run lobbed.before [hushed, lobbed] hushed.after ∧ lobbed.before.Fresh ∧
      hushed.after.snapshot.isActive ⟨1⟩ = false ∧
      (under ⟨1⟩ hushed.after.shots).map Bullet.phase = some .active ∧
      hushed.after.reindex.index.find? ⟨1⟩ = some .zero ∧
      (under ⟨1⟩ (hushed.after.runTick (fun _ => .silent) 0.05).1.shots).map Bullet.endReason =
        some (some .hit) ∧
      ¬hushed.after.Coherent :=
  ⟨hushed_run, lobbed_fresh, by decide +kernel, rfl, rfl, rfl, hushed_not_coherent⟩

def settled : Moment :=
  hushed.after.moment (.step (fun _ => .silent) 0.05)

theorem settled_steady :
    Run lobbed.before [settled, hushed, lobbed] settled.after ∧ lobbed.before.Fresh ∧
      (∀ moment ∈ [settled, hushed, lobbed], ∀ book ∈ moment.act.books,
        book.Within Actor.Edit.SparesActivity) ∧
      ¬hushed.after.Coherent ∧ settled.after.Steady := by
  have hrun : Run lobbed.before [settled, hushed, lobbed] settled.after :=
    hushed_run.moment (by decide +kernel)
  have hscripts : ∀ moment ∈ [settled, hushed, lobbed], ∀ book ∈ moment.act.books,
      book.Within Actor.Edit.SparesActivity := by
    simp only [List.forall_mem_cons, List.not_mem_nil, false_imp_iff, implies_true, and_true]
    exact ⟨List.forall_mem_nil _, List.forall_mem_nil _,
      List.forall_mem_singleton.mpr (ScriptBook.within_empty _)⟩
  refine ⟨hrun, lobbed_fresh, hscripts, hushed_not_coherent,
    ((steady_iff Actor.Edit.SparesActivity).2 hrun lobbed_fresh hscripts).mpr ?_⟩
  intro id value bullet hvalue hunder
  have hid : id ∈ settled.after.shots.map fun shot => shot.bullet.id := mem_ids_of_under hunder
  rw [show settled.after.shots.map (fun shot => shot.bullet.id) = [⟨1⟩] by decide +kernel] at hid
  rw [List.mem_singleton.mp hid, show override? ⟨1⟩ [settled, hushed, lobbed] =
    none by decide +kernel] at hvalue
  cases hvalue

end World

end Volley
