import Volley.Program

/-!
# What a run of a program keeps

A run gives its host a sequence of orders and notes. Whatever relation every one of them
keeps, and every custom action, the whole run keeps. The same goes for two runs side by side,
of hosts that a program cannot tell apart.
-/

namespace Volley

variable {η : Type} [TriggerHost η]

/-- A relation between a host before and a host after that every order to the host keeps
but the announcement of a rule. -/
structure TriggerHost.Obeys (R : η → η → Prop) : Prop where
  refl : ∀ host, R host host
  trans : ∀ {first second third}, R first second → R second third → R first third
  orderFlight : ∀ order host, R host (TriggerHost.orderFlight order host)
  orderDamage : ∀ order host, R host (TriggerHost.orderDamage order host)
  note : ∀ notice host, R host (TriggerHost.note notice host)

/-- A relation between a host before and a host after that every order to the host keeps. -/
structure TriggerHost.Keeps (R : η → η → Prop) : Prop extends TriggerHost.Obeys R where
  announce : ∀ segment cue host, R host (TriggerHost.announce segment cue host)

/-- Every custom action keeps the relation. -/
def Handlers.Keep (handlers : Handlers η) (R : η → η → Prop) : Prop :=
  ∀ name action, handlers.action name = some action → ∀ params host, R host (action params host)

variable {R : η → η → Prop} {handlers : Handlers η}

theorem Condition.judgeAll_keeps (hR : TriggerHost.Obeys R) (conditions : List Condition)
    (host : η) :
    R host (Condition.judgeAll handlers conditions host).2 := by
  induction conditions with
  | nil => exact hR.refl host
  | cons condition rest ih =>
      rw [judgeAll]
      split
      · exact ih
      · exact hR.refl host
      · exact hR.note _ host

def Action.isCustom : Action → Bool
  | .custom _ => true
  | _ => false

theorem Action.take_keeps_of_plain (hR : TriggerHost.Obeys R) {action : Action}
    (hplain : action.isCustom = false) (host : η) : R host (action.take handlers host) := by
  cases action with
  | fly order => exact hR.orderFlight order host
  | damage order => exact hR.orderDamage order host
  | custom call => cases hplain
  | unrecognized tag => exact hR.note _ host
  | malformed tag => exact hR.note _ host

theorem Action.take_keeps (hR : TriggerHost.Obeys R) (hhandlers : handlers.Keep R) (action : Action)
    (host : η) :
    R host (action.take handlers host) := by
  cases action with
  | custom call =>
      rw [take]
      split
      · rename_i handler hhandler
        exact hhandlers call.name handler hhandler call.params host
      · exact hR.note _ host
  | _ => exact Action.take_keeps_of_plain hR rfl host

theorem foldl_keeps {σ α : Type} {S : σ → σ → Prop} (hrefl : ∀ state, S state state)
    (htrans : ∀ {first second third}, S first second → S second third → S first third)
    {step : σ → α → σ} {list : List α} (hstep : ∀ a ∈ list, ∀ state, S state (step state a))
    (state : σ) :
    S state (list.foldl step state) := by
  induction list generalizing state with
  | nil => exact hrefl state
  | cons a rest ih =>
      obtain ⟨hfirst, hrest⟩ := List.forall_mem_cons.mp hstep
      exact htrans (hfirst state) (ih hrest (step state a))

namespace Program

theorem runRule_keeps (hR : TriggerHost.Keeps R) (hhandlers : handlers.Keep R) (segment : UInt32)
    (cue : Cue) (state : Nat × η) (rule : CompiledRule) :
    R state.2 (runRule handlers segment cue state rule).2 := by
  rw [runRule]
  split
  · have hjudged : R state.2 (Condition.judgeAll handlers rule.conditions state.2).2 :=
      Condition.judgeAll_keeps hR.toObeys rule.conditions state.2
    split
    · rename_i host hverdict
      rw [hverdict] at hjudged
      exact hjudged
    · rename_i host hverdict
      rw [hverdict] at hjudged
      refine hR.trans hjudged (hR.trans ?_ (hR.announce segment cue _))
      exact foldl_keeps hR.refl hR.trans
        (fun action _ host => action.take_keeps hR.toObeys hhandlers host) host
  · exact hR.refl state.2

theorem runSegment_keeps (hR : TriggerHost.Keeps R) (hhandlers : handlers.Keep R) (cue : Cue)
    (state : Nat × η) (segment : CompiledSegment) :
    R state.2 (runSegment handlers cue state segment).2 :=
  foldl_keeps (S := fun before after => R before.2 after.2) (fun state => hR.refl state.2) hR.trans
    (fun rule _ state => runRule_keeps hR hhandlers segment.id cue state rule) state

theorem run_keeps (hR : TriggerHost.Keeps R) (hhandlers : handlers.Keep R) (program : Program)
    (cue : Cue) (host : η) : R host (program.run handlers cue host).2 :=
  foldl_keeps (S := fun before after => R before.2 after.2) (fun state => hR.refl state.2) hR.trans
    (fun segment _ state => runSegment_keeps hR hhandlers cue state segment) (0, host)

end Program

/-! ## Which rules fire -/

/-- No rule takes a custom action. -/
def Program.Plain (program : Program) : Prop :=
  ∀ segment ∈ program.segments, ∀ rule ∈ segment.rules, ∀ action ∈ rule.actions,
  action.isCustom = false

instance (program : Program) : Decidable program.Plain :=
  inferInstanceAs (Decidable (∀ segment ∈ program.segments, _))

/-- The rules of a segment that wait for a cue, each by the segment. -/
def CompiledSegment.waiting (segment : CompiledSegment) (cue : Cue) : List UInt32 :=
  segment.rules.flatMap fun rule => if rule.cue = cue then [segment.id] else []

/-- The rules that wait for a cue in the order in which they are declared, each by its segment. -/
def Program.waiting (program : Program) (cue : Cue) : List UInt32 :=
  program.segments.flatMap fun segment => segment.waiting cue

/-- A relation that keeps account of the announcements for a cue, each by its segment. -/
structure TriggerHost.Counts (cue : Cue) (S : List UInt32 → η → η → Prop) : Prop where
  quiet : TriggerHost.Obeys (S [])
  append : ∀ {first second third fired others}, S fired first second → S others second third →
    S (fired ++ others) first third
  announce : ∀ segment host, S [segment] host (TriggerHost.announce segment cue host)

/-- If a step announces some of what is due at it, a fold announces some of
all that is due, in order. -/
theorem foldl_counts {σ α : Type} {S : List UInt32 → σ → σ → Prop}
    (hrefl : ∀ state, S [] state state)
    (happend : ∀ {first second third fired others}, S fired first second → S others second third →
      S (fired ++ others) first third)
    {step : σ → α → σ} {due : α → List UInt32} {list : List α}
    (hstep : ∀ a ∈ list, ∀ state, ∃ fired, fired.Sublist (due a) ∧ S fired state (step state a))
    (state : σ) :
    ∃ fired, fired.Sublist (list.flatMap due) ∧ S fired state (list.foldl step state) := by
  induction list generalizing state with
  | nil => exact ⟨[], List.Sublist.refl [], hrefl state⟩
  | cons a rest ih =>
      obtain ⟨hfirst, hrest⟩ := List.forall_mem_cons.mp hstep
      obtain ⟨fired, hfired, hfiring⟩ := hfirst state
      obtain ⟨others, hothers, hlast⟩ := ih hrest (step state a)
      exact ⟨fired ++ others, hfired.append hothers, happend hfiring hlast⟩

section Counts

variable {cue : Cue} {S : List UInt32 → η → η → Prop} (hS : TriggerHost.Counts cue S)

include hS

namespace Program

theorem runRule_counts (segment : UInt32) {rule : CompiledRule}
    (hplain : ∀ action ∈ rule.actions, action.isCustom = false) (state : Nat × η) :
    ∃ fired, fired.Sublist (if rule.cue = cue then [segment] else []) ∧
      S fired state.2 (runRule handlers segment cue state rule).2 := by
  rw [runRule]
  split
  · have hjudged : S [] state.2 (Condition.judgeAll handlers rule.conditions state.2).2 :=
      Condition.judgeAll_keeps hS.quiet rule.conditions state.2
    split
    · rename_i host hverdict
      rw [hverdict] at hjudged
      exact ⟨[], List.nil_sublist _, hjudged⟩
    · rename_i host hverdict
      rw [hverdict] at hjudged
      have htaken : S [] host (rule.actions.foldl
          (fun host action => action.take handlers host) host) :=
        foldl_keeps hS.quiet.refl hS.quiet.trans
          (fun action haction host =>
            Action.take_keeps_of_plain hS.quiet (hplain action haction) host) host
      exact ⟨[segment], List.Sublist.refl _,
        hS.append hjudged (hS.append htaken (hS.announce segment _))⟩
  · exact ⟨[], List.Sublist.refl [], hS.quiet.refl state.2⟩

/-- A run without custom actions announces some of the rules that wait for the
cue, in the order of declaration. -/
theorem run_counts {program : Program} (hplain : program.Plain) (host : η) :
    ∃ fired, fired.Sublist (program.waiting cue) ∧
      S fired host (program.run handlers cue host).2 := by
  have hrefl : ∀ state : Nat × η, S [] state.2 state.2 := fun state => hS.quiet.refl state.2
  refine foldl_counts (S := fun fired before after => S fired before.2 after.2) hrefl hS.append
    (fun segment hsegment state => ?_) (0, host)
  exact foldl_counts (S := fun fired before after => S fired before.2 after.2) hrefl hS.append
    (fun rule hrule state => runRule_counts hS segment.id
      (hplain segment hsegment rule hrule) state) state

end Program

end Counts

/-! ## Two runs side by side -/

/-- A relation between hosts that look the same to a program, and that the
same order to both of them keeps. -/
structure TriggerHost.Congruence (R : η → η → Prop) : Prop where
  elapsed : ∀ {first second}, R first second →
    TriggerHost.elapsed first = TriggerHost.elapsed second
  position : ∀ {first second}, R first second →
    TriggerHost.position first = TriggerHost.position second
  unitPosition : ∀ {first second}, R first second →
    TriggerHost.unitPosition first = TriggerHost.unitPosition second
  orderFlight : ∀ order {first second}, R first second →
    R (TriggerHost.orderFlight order first) (TriggerHost.orderFlight order second)
  orderDamage : ∀ order {first second}, R first second →
    R (TriggerHost.orderDamage order first) (TriggerHost.orderDamage order second)
  announce : ∀ segment cue {first second}, R first second →
    R (TriggerHost.announce segment cue first) (TriggerHost.announce segment cue second)
  note : ∀ notice {first second}, R first second →
    R (TriggerHost.note notice first) (TriggerHost.note notice second)

/-- No custom condition tells such hosts apart, and every custom action keeps the relation. -/
structure Handlers.Congruence (handlers : Handlers η) (R : η → η → Prop) : Prop where
  condition : ∀ name condition, handlers.condition name = some condition →
    ∀ params {first second}, R first second → condition first params = condition second params
  action : ∀ name action, handlers.action name = some action →
    ∀ params {first second}, R first second → R (action params first) (action params second)

section Congruence

variable {first second : η} (hR : TriggerHost.Congruence R) (hhandlers : handlers.Congruence R)

include hR hhandlers

theorem Condition.judge_congr (hsame : R first second) (condition : Condition) :
    condition.judge handlers first = condition.judge handlers second := by
  cases condition with
  | lifetime params => rw [judge, judge, hR.elapsed hsame]
  | proximity params =>
      have hplace : params.place first = params.place second := by
        rw [Proximity.place, Proximity.place, hR.unitPosition hsame]
      rw [judge, judge, hplace, hR.position hsame]
  | custom call =>
      rw [judge, judge]
      cases hcondition : handlers.condition call.name with
      | none => rfl
      | some condition =>
          dsimp only
          rw [hhandlers.condition call.name condition hcondition call.params hsame]
  | unrecognized tag => rfl
  | malformed tag => rfl

theorem Condition.judgeAll_congr (hsame : R first second) (conditions : List Condition) :
    (judgeAll handlers conditions first).1 = (judgeAll handlers conditions second).1 ∧
      R (judgeAll handlers conditions first).2 (judgeAll handlers conditions second).2 := by
  induction conditions with
  | nil => exact ⟨rfl, hsame⟩
  | cons condition rest ih =>
      rw [judgeAll, judgeAll, ← condition.judge_congr hR hhandlers hsame]
      cases condition.judge handlers first with
      | holds => exact ih
      | fails => exact ⟨rfl, hsame⟩
      | rejected notice => exact ⟨rfl, hR.note notice hsame⟩

theorem Action.take_congr (hsame : R first second) (action : Action) :
    R (action.take handlers first) (action.take handlers second) := by
  cases action with
  | fly order => exact hR.orderFlight order hsame
  | damage order => exact hR.orderDamage order hsame
  | custom call =>
      rw [take, take]
      cases haction : handlers.action call.name with
      | none => exact hR.note _ hsame
      | some action => exact hhandlers.action call.name action haction call.params hsame
  | unrecognized tag => exact hR.note _ hsame
  | malformed tag => exact hR.note _ hsame

namespace Program

/-- As many rules have fired in both runs, and the hosts are related. -/
abbrev Abreast (R : η → η → Prop) (first second : Nat × η) : Prop :=
  first.1 = second.1 ∧ R first.2 second.2

theorem runRule_congr {first second : Nat × η} (hsame : Abreast R first second) (segment : UInt32)
    (cue : Cue) (rule : CompiledRule) :
    Abreast R (runRule handlers segment cue first rule)
      (runRule handlers segment cue second rule) := by
  rw [runRule, runRule]
  split
  · obtain ⟨hverdict, hjudged⟩ := Condition.judgeAll_congr hR hhandlers hsame.2 rule.conditions
    generalize Condition.judgeAll handlers rule.conditions first.2 =
      firstJudged at hverdict hjudged ⊢
    generalize Condition.judgeAll handlers rule.conditions second.2 =
      secondJudged at hverdict hjudged ⊢
    obtain ⟨holds, firstHost⟩ := firstJudged
    obtain ⟨_, secondHost⟩ := secondJudged
    obtain rfl : holds = _ := hverdict
    cases holds with
    | false => exact ⟨hsame.1, hjudged⟩
    | true =>
        refine ⟨congrArg (· + 1) hsame.1, hR.announce segment cue ?_⟩
        exact List.foldl_rel hjudged fun action _ _ _ htaken =>
          action.take_congr hR hhandlers htaken
  · exact hsame

theorem runSegment_congr {first second : Nat × η} (hsame : Abreast R first second) (cue : Cue)
    (segment : CompiledSegment) :
    Abreast R (runSegment handlers cue first segment) (runSegment handlers cue second segment) :=
  List.foldl_rel hsame fun rule _ _ _ hrun => runRule_congr hR hhandlers hrun segment.id cue rule

theorem run_congr (hsame : R first second) (program : Program) (cue : Cue) :
    Abreast R (program.run handlers cue first) (program.run handlers cue second) :=
  List.foldl_rel (r := Abreast R) ⟨rfl, hsame⟩ fun segment _ _ _ hrun =>
    runSegment_congr hR hhandlers hrun cue segment

end Program

end Congruence

/-! ## The same run by other handlers -/

/-- Hosts of a kind cannot tell the handlers apart, and stay of that kind. -/
structure Handlers.Agree (P : η → Prop) (handlers others : Handlers η) : Prop where
  condition : handlers.condition = others.condition
  action : ∀ name, Option.Rel
    (fun action other => ∀ params host, P host → action params host = other params host ∧
      P (other params host))
    (handlers.action name) (others.action name)

theorem foldl_eq {σ α : Type} {Q : σ → Prop} {step other : σ → α → σ}
    (hstep : ∀ a state, Q state → step state a = other state a ∧ Q (other state a)) (list : List α)
    {state : σ} (hstate : Q state) :
    list.foldl step state = list.foldl other state ∧ Q (list.foldl other state) := by
  induction list generalizing state with
  | nil => exact ⟨rfl, hstate⟩
  | cons a rest ih =>
      obtain ⟨hsame, hnext⟩ := hstep a state hstate
      rw [List.foldl_cons, List.foldl_cons, hsame]
      exact ih hnext

section Agree

variable {P : η → Prop} {others : Handlers η}
  (hP : TriggerHost.Keeps fun before after => P before → P after) (hagree : handlers.Agree P others)

include hagree

theorem Condition.judgeAll_eq (conditions : List Condition) (host : η) :
    judgeAll handlers conditions host = judgeAll others conditions host := by
  have hjudge : ∀ condition : Condition,
      condition.judge handlers host = condition.judge others host := by
    intro condition
    cases condition with
    | custom call => rw [judge, judge, hagree.condition]
    | _ => rfl
  induction conditions with
  | nil => rfl
  | cons condition rest ih => rw [judgeAll, judgeAll, hjudge, ih]

include hP

theorem Action.take_eq {host : η} (hhost : P host) (action : Action) :
    action.take handlers host = action.take others host ∧ P (action.take others host) := by
  cases action with
  | custom call =>
      have haction := hagree.action call.name
      rw [take, take]
      generalize handlers.action call.name = handler at haction ⊢
      generalize others.action call.name = other at haction ⊢
      cases haction with
      | none => exact ⟨rfl, hP.note _ host hhost⟩
      | some hsame => exact hsame call.params host hhost
  | fly order => exact ⟨rfl, hP.orderFlight order host hhost⟩
  | damage order => exact ⟨rfl, hP.orderDamage order host hhost⟩
  | unrecognized tag => exact ⟨rfl, hP.note _ host hhost⟩
  | malformed tag => exact ⟨rfl, hP.note _ host hhost⟩

namespace Program

theorem runRule_eq {state : Nat × η} (hstate : P state.2) (segment : UInt32) (cue : Cue)
    (rule : CompiledRule) :
    runRule handlers segment cue state rule = runRule others segment cue state rule ∧
      P (runRule others segment cue state rule).2 := by
  have hjudged : P (Condition.judgeAll others rule.conditions state.2).2 :=
    Condition.judgeAll_keeps hP.toObeys rule.conditions state.2 hstate
  rw [runRule, runRule, Condition.judgeAll_eq hagree]
  split
  · split
    · rename_i host hverdict
      rw [hverdict] at hjudged
      exact ⟨rfl, hjudged⟩
    · rename_i host hverdict
      rw [hverdict] at hjudged
      obtain ⟨hsame, htaken⟩ := foldl_eq (Q := P)
        (fun action _ hhost => Action.take_eq hP hagree hhost action) rule.actions hjudged
      rw [hsame]
      exact ⟨rfl, hP.announce segment cue _ htaken⟩
  · exact ⟨rfl, hstate⟩

theorem runSegment_eq {state : Nat × η} (hstate : P state.2) (cue : Cue)
    (segment : CompiledSegment) :
    runSegment handlers cue state segment = runSegment others cue state segment ∧
      P (runSegment others cue state segment).2 :=
  foldl_eq (Q := fun state : Nat × η => P state.2)
    (fun rule _ hstate => runRule_eq hP hagree hstate segment.id cue rule) segment.rules hstate

/-- The run is the same by handlers that do the same to every host of a kind
that all orders keep. -/
theorem run_eq {host : η} (hhost : P host) (program : Program) (cue : Cue) :
    program.run handlers cue host = program.run others cue host :=
  (foldl_eq (Q := fun state : Nat × η => P state.2)
    (fun segment _ hstate => runSegment_eq hP hagree hstate cue segment) program.segments hhost).1

end Program

end Agree

end Volley
