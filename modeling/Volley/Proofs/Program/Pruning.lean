import Volley.Proofs.Program.Reading
import Volley.Rehearsal

/-!
# Rules that cannot fire

A condition that nobody can judge never holds: its tag is unknown, its parameters cannot be decoded,
or it names a custom condition that is not there. A rule with such a condition, wherever it stands
and whether it is the rule's own or its segment's, can only ask and note. So it can be deleted, and
so can the rules that wait for another cue: what remains gives the same orders in the same order,
and leaves the same host apart from its log.
-/

namespace Volley

/-! ## Which rules are live -/

section Live

variable (registry : Registry)

def Clause.isJudgeable (clause : Clause) : Bool :=
  if clause.tag ∈ lifetimeTags then (clause.decodeArguments? : Option Lifetime).isSome
  else if clause.tag ∈ proximityTags then (clause.decodeArguments? : Option Proximity).isSome
  else if clause.tag ∈ customConditionTags then
    (clause.decodeArguments? : Option CustomCall).any fun call => registry.condition call.name
  else false

/-- The rule waits for the cue, and every condition in force for it can be judged. -/
def Rule.isLive (cue : Cue) (segment : Segment) (rule : Rule) : Bool :=
  rule.cue = cue && (Clause.inForce rule.conditions segment.conditions).all
    (Clause.isJudgeable registry)

def Segment.prune (cue : Cue) (segment : Segment) : Segment :=
  { segment with rules := segment.rules.filter (Rule.isLive registry cue segment) }

end Live

/-! ## Hosts apart from their logs -/

section Unlogged

variable {α β η : Type} [TriggerHost η] {R : η → η → Prop} {handlers : Handlers η}

/-- A relation between hosts that look the same to a program, and that may differ
in what has been noted to them. -/
structure TriggerHost.Unlogged (R : η → η → Prop) : Prop extends TriggerHost.Congruence R where
  refl : ∀ host, R host host
  trans : ∀ {first second third}, R first second → R second third → R first third
  noted : ∀ notice host, R (TriggerHost.note notice host) host

theorem HostCall.answer_congr (hR : TriggerHost.Congruence R) (hhandlers : handlers.Congruence R)
    {first second : η} (hsame : R first second) (said : HostCall) :
    (said.answer handlers first).1 = (said.answer handlers second).1 ∧
      R (said.answer handlers first).2 (said.answer handlers second).2 := by
  cases said with
  | elapsed => exact ⟨hR.elapsed hsame, hsame⟩
  | position => exact ⟨hR.position hsame, hsame⟩
  | unitPosition unit => exact ⟨congrFun (hR.unitPosition hsame) unit, hsame⟩
  | condition name params =>
      refine ⟨?_, hsame⟩
      rw [answer, answer]
      cases hjudge : handlers.condition name with
      | none => rfl
      | some judge => exact hhandlers.condition name judge hjudge params hsame
  | action name params =>
      refine ⟨rfl, ?_⟩
      rw [answer, answer]
      cases hact : handlers.action name with
      | none => exact hsame
      | some act => exact hhandlers.action name act hact params hsame
  | fly order => exact ⟨rfl, hR.orderFlight order hsame⟩
  | damage order => exact ⟨rfl, hR.orderDamage order hsame⟩
  | announce segment cue => exact ⟨rfl, hR.announce segment cue hsame⟩
  | note notice => exact ⟨rfl, hR.note notice hsame⟩

theorem HostCall.question_or_note {said : HostCall} (horder : said.isOrder = false) :
    said.isQuestion = true ∨ ∃ notice, said = .note notice := by
  cases said with
  | elapsed | position | unitPosition unit | condition name params => exact .inl rfl
  | note notice => exact .inr ⟨notice, rfl⟩
  | _ => cases horder

/-- Two dialogues that came to the same and gave the same orders, where the
first may have asked and noted more. -/
structure Played.Alike (R : η → η → Prop) (full pruned : Played α η) : Prop where
  value : full.value = pruned.value
  host : R full.host pruned.host
  orders : full.calls.filter HostCall.isOrder = pruned.calls.filter HostCall.isOrder
  said : pruned.calls.Sublist full.calls

namespace Dialogue

theorem play_alike (hR : TriggerHost.Congruence R) (hhandlers : handlers.Congruence R)
    {first second : η} (hsame : R first second) (dialogue : Dialogue α) :
    Played.Alike R (dialogue.play handlers first) (dialogue.play handlers second) := by
  induction dialogue generalizing first second with
  | done value => exact ⟨rfl, hsame, rfl, List.Sublist.refl []⟩
  | call said next ih =>
      obtain ⟨hreply, hhosts⟩ := said.answer_congr hR hhandlers hsame
      have hrest := ih (said.answer handlers first).1 hhosts
      rw [play, play, ← hreply]
      refine ⟨hrest.value, hrest.host, ?_, hrest.said.cons_cons said⟩
      rw [List.filter_cons, List.filter_cons, hrest.orders]

theorem bind_alike {full pruned : η} {first second : Dialogue α} {next other : α → Dialogue β}
    (hfirst : Played.Alike R (first.play handlers full) (second.play handlers pruned))
    (hnext : ∀ value {full pruned}, R full pruned →
      Played.Alike R ((next value).play handlers full) ((other value).play handlers pruned)) :
    Played.Alike R ((first >>= next).play handlers full)
      ((second >>= other).play handlers pruned) := by
  have hrest := hnext (second.play handlers pruned).value hfirst.host
  rw [play_bind, play_bind]
  dsimp only
  rw [hfirst.value]
  refine ⟨hrest.value, hrest.host, ?_, hfirst.said.append hrest.said⟩
  rw [List.filter_append, List.filter_append, hfirst.orders, hrest.orders]

theorem forM_alike {act other : α → Dialogue Unit} (hact : ∀ a {full pruned}, R full pruned →
      Played.Alike R ((act a).play handlers full) ((other a).play handlers pruned))
    (list : List α) {full pruned : η} (hsame : R full pruned) :
    Played.Alike R ((list.forM act).play handlers full)
      ((list.forM other).play handlers pruned) := by
  induction list generalizing full pruned with
  | nil => exact ⟨rfl, hsame, rfl, List.Sublist.refl []⟩
  | cons a rest ih => exact bind_alike (hact a hsame) fun _ _ _ hsame => ih hsame

/-- A dialogue without orders leaves the host as it was, apart from its log. -/
theorem Only.quiet (hR : TriggerHost.Unlogged R) {dialogue : Dialogue α}
    (honly : dialogue.Only fun said => said.isOrder = false) (host : η) :
    R (dialogue.play handlers host).host host := by
  induction dialogue generalizing host with
  | done value => exact hR.refl host
  | call said next ih =>
      have hrest := ih (said.answer handlers host).1 (honly.2 _) (said.answer handlers host).2
      refine hR.trans hrest ?_
      rcases HostCall.question_or_note honly.1 with hquestion | ⟨notice, rfl⟩
      · rw [said.answer_of_isQuestion hquestion]
        exact hR.refl host
      · exact hR.noted notice host

end Dialogue

end Unlogged

/-! ## Rules that are not live -/

section Prune

variable {α η : Type} [TriggerHost η] {R : η → η → Prop} {handlers : Handlers η}

theorem Clause.judged_of_not_isJudgeable {registry : Registry} {clause : Clause}
    (hclause : clause.isJudgeable registry = false) :
    ∃ notice, clause.judged registry = .reject notice := by
  rw [isJudgeable] at hclause
  rw [judged]
  by_cases hlifetime : clause.tag ∈ lifetimeTags
  · rw [if_pos hlifetime] at hclause ⊢
    cases hparams : (clause.decodeArguments? : Option Lifetime) with
    | none => exact ⟨_, rfl⟩
    | some params => simp [hparams] at hclause
  rw [if_neg hlifetime] at hclause ⊢
  by_cases hproximity : clause.tag ∈ proximityTags
  · rw [if_pos hproximity] at hclause ⊢
    cases hparams : (clause.decodeArguments? : Option Proximity) with
    | none => exact ⟨_, rfl⟩
    | some params => simp [hparams] at hclause
  rw [if_neg hproximity] at hclause ⊢
  by_cases hcustom : clause.tag ∈ customConditionTags
  · rw [if_pos hcustom] at hclause ⊢
    cases hcall : (clause.decodeArguments? : Option CustomCall) with
    | none => exact ⟨_, rfl⟩
    | some call =>
        have hmissing : registry.condition call.name = false := by simpa [hcall] using hclause
        exact ⟨_, if_neg (Bool.not_eq_true _ ▸ hmissing)⟩
  · rw [if_neg hcustom]
    exact ⟨_, rfl⟩

theorem Dialogue.value_allM_false {judge : α → Dialogue Bool} {list : List α} {a : α}
    (ha : a ∈ list) (hfalse : ∀ host : η, ((judge a).play handlers host).value = false) (host : η) :
    ((list.allM judge).play handlers host).value = false := by
  induction list generalizing host with
  | nil => cases ha
  | cons first rest ih =>
      rw [List.allM, play_bind]
      dsimp only
      cases hfirst : ((judge first).play handlers host).value with
      | false => rfl
      | true =>
          rcases List.mem_cons.mp ha with rfl | hrest
          · rw [hfalse host] at hfirst
            cases hfirst
          · exact ih hrest _

theorem Dialogue.Only.orders {dialogue : Dialogue α}
    (honly : dialogue.Only fun said => said.isOrder = false) (handlers : Handlers η) (host : η) :
    (dialogue.play handlers host).calls.filter HostCall.isOrder = [] :=
  List.filter_eq_nil_iff.mpr fun said hsaid => Bool.not_eq_true _ ▸ honly.calls host said hsaid

/-- A rule that is not live asks and notes at most. -/
theorem Rule.play_of_not_isLive {cue : Cue} {segment : Segment} {rule : Rule}
    (hrule : rule.isLive handlers.registry cue segment = false) (host : η) :
    ∃ judged : Dialogue Bool, judged.Only (fun said => said.isOrder = false) ∧
      (if decide (rule.cue = cue) then rule.read handlers.registry segment else pure ()).play
        handlers host = { judged.play handlers host with value := () } := by
  by_cases hcue : rule.cue = cue
  · let clauses := Clause.inForce rule.conditions segment.conditions
    have hjudgeable : clauses.all (Clause.isJudgeable handlers.registry) = false := by
      simpa [isLive, hcue] using hrule
    obtain ⟨clause, hclause, hunjudged⟩ := List.all_eq_false.mp hjudgeable
    obtain ⟨notice, hreject⟩ := Clause.judged_of_not_isJudgeable (Bool.not_eq_true _ ▸ hunjudged)
    have hfails : ((clauses.allM (Clause.judged handlers.registry)).play handlers host).value =
        false :=
      Dialogue.value_allM_false hclause (fun host => by rw [hreject]; rfl) host
    refine ⟨clauses.allM (Clause.judged handlers.registry), Clause.allM_judged_only _ clauses, ?_⟩
    rw [if_pos (decide_eq_true hcue), read, Dialogue.play_bind]
    dsimp only
    rw [if_neg (Bool.not_eq_true _ ▸ hfails)]
    exact congrArg (fun calls => Played.mk () calls _) (List.append_nil _)
  · rw [if_neg (by simpa using hcue)]
    exact ⟨pure false, Dialogue.only_pure false, rfl⟩

section Alike

variable (hR : TriggerHost.Unlogged R) (hhandlers : handlers.Congruence R)

include hR hhandlers

/-- A rule may as well be passed over unless it is live. -/
theorem Rule.read_alike (cue : Cue) (segment : Segment) (rule : Rule) {full pruned : η}
    (hsame : R full pruned) :
    Played.Alike R
      ((if decide (rule.cue = cue) then rule.read handlers.registry segment
        else pure ()).play handlers full)
      ((if decide (rule.cue = cue) && rule.isLive handlers.registry cue segment then
        rule.read handlers.registry segment else pure ()).play handlers pruned) := by
  by_cases hcue : rule.cue = cue
  · cases hlive : rule.isLive handlers.registry cue segment with
    | true =>
        simp only [hcue, decide_true, Bool.and_true, if_true]
        exact Dialogue.play_alike hR.toCongruence hhandlers hsame _
    | false =>
        obtain ⟨judged, honly, hplay⟩ := rule.play_of_not_isLive hlive full
        rw [hplay, Bool.and_false]
        exact ⟨rfl, hR.trans (honly.quiet hR full) hsame, honly.orders handlers full,
          List.nil_sublist _⟩
  · simp only [hcue, decide_false, Bool.false_and, Bool.false_eq_true, if_false]
    exact Dialogue.play_alike hR.toCongruence hhandlers hsame _

theorem Segment.read_alike (cue : Cue) (segment : Segment) {full pruned : η}
    (hsame : R full pruned) :
    Played.Alike R ((segment.read handlers.registry cue).play handlers full)
      (((segment.prune handlers.registry cue).read handlers.registry cue).play
        handlers pruned) := by
  rw [read, read, prune, List.filter_filter, Dialogue.forM_filter, Dialogue.forM_filter]
  exact Dialogue.forM_alike (fun rule _ _ hsame => rule.read_alike hR hhandlers cue segment hsame)
    segment.rules hsame

/-- Segments without the rules that are not live give the same orders. They
ask and note no more than before. -/
theorem Segment.readAll_alike (cue : Cue) (segments : List Segment) (host : η) :
    Played.Alike R ((readAll handlers.registry cue segments).play handlers host)
      ((readAll handlers.registry cue (segments.map (prune handlers.registry cue))).play
        handlers host) := by
  rw [readAll, readAll, Dialogue.forM_map]
  exact Dialogue.forM_alike
    (fun segment _ _ hsame => segment.read_alike hR hhandlers cue hsame) segments
    (hR.refl host)

end Alike

/-! ## Pruned programs -/

theorem HostCall.countP_isAnnouncement_filter (calls : List HostCall) :
    (calls.filter isOrder).countP isAnnouncement = calls.countP isAnnouncement := by
  rw [List.countP_filter]
  refine List.countP_congr fun said _ => ?_
  cases said <;> simp [isAnnouncement, isOrder, isQuestion, isNote]

theorem Program.orders_transcribed (program : Program) (cue : Cue) (host : η) :
    (program.run handlers.transcribed cue (.start host)).2.orders =
      ((program.spoken handlers.registry cue).play handlers host).calls.filter
        HostCall.isOrder := by
  rw [run_transcribed, Transcript.orders]
  exact HostCall.filter_isOrder_statements _

/-- A rule that is not live neither fires nor orders anything, whatever the host. -/
theorem Program.runRule_of_not_isLive {cue : Cue} {segment : Segment} {rule : Rule}
    (hrule : rule.isLive handlers.registry cue segment = false) (fired : Nat) (host : η) :
    let after := runRule handlers.transcribed segment.id cue (fired, .start host)
      (compileRule segment rule)
    after.1 = fired ∧ after.2.orders = [] := by
  obtain ⟨judged, honly, hplay⟩ := rule.play_of_not_isLive hrule host
  have hspoken := play_compileRule handlers segment cue rule fired host
  have horders := honly.orders handlers host
  have hfired : (judged.play handlers host).calls.countP HostCall.isAnnouncement = 0 := by
    rw [← HostCall.countP_isAnnouncement_filter, horders, List.countP_nil]
  rw [hplay] at hspoken
  rw [runRule_transcribed]
  dsimp only [Transcript.start]
  rw [hspoken]
  exact ⟨congrArg (fired + ·) hfired, (HostCall.filter_isOrder_statements _).trans horders⟩

/-- The rules that cannot fire at a cue may be deleted from the segments: those that wait
for another cue, and those with a condition that cannot be judged. As many rules fire, the
same orders and custom actions are given in the same order, and the host is left the same
apart from its log. Nothing is asked that was not asked before. A rule that is deleted
never does anything to any host. -/
theorem Program.run_prune (hR : TriggerHost.Unlogged R) (hhandlers : handlers.Congruence R)
    (segments : List Segment) (cue : Cue) (host : η) :
    let full := compile segments
    let pruned := compile (segments.map (Segment.prune handlers.registry cue))
    (full.run handlers cue host).1 = (pruned.run handlers cue host).1 ∧
      R (full.run handlers cue host).2 (pruned.run handlers cue host).2 ∧
      (full.run handlers.transcribed cue (.start host)).2.orders =
        (pruned.run handlers.transcribed cue (.start host)).2.orders ∧
      ((pruned.spoken handlers.registry cue).play handlers host).calls.Sublist
        ((full.spoken handlers.registry cue).play handlers host).calls ∧
      ∀ (segment : Segment) (rule : Rule), rule.isLive handlers.registry cue segment = false →
        ∀ fired (host : η),
        let after := runRule handlers.transcribed segment.id cue (fired, .start host)
          (compileRule segment rule)
        after.1 = fired ∧ after.2.orders = [] := by
  intro full pruned
  have halike := Segment.readAll_alike hR hhandlers cue segments host
  rw [run_eq_play, run_eq_play, orders_transcribed, orders_transcribed, play_compile, play_compile]
  refine ⟨?_, halike.host, halike.orders, halike.said, fun segment rule hrule fired host =>
    runRule_of_not_isLive hrule fired host⟩
  have hfired := congrArg (List.countP HostCall.isAnnouncement) halike.orders
  rw [HostCall.countP_isAnnouncement_filter, HostCall.countP_isAnnouncement_filter] at hfired
  exact congrArg (0 + ·) hfired

end Prune

/-! ## A rehearsal -/

namespace Rehearsal

def unlogged (rehearsal : Rehearsal) : Rehearsal :=
  { rehearsal with orders := rehearsal.orders.filter fun order => order.notice?.isNone }

theorem unlogged_record (rehearsal : Rehearsal) (order : Order) :
    (rehearsal.record order).unlogged =
      if order.notice?.isNone then rehearsal.unlogged.record order else rehearsal.unlogged := by
  rw [unlogged, record, List.filter_append]
  cases order <;> simp [unlogged, record, Order.notice?]

theorem record_unlogged_congr {first second : Rehearsal} (hsame : first.unlogged = second.unlogged)
    (order : Order) :
    (first.record order).unlogged = (second.record order).unlogged := by
  rw [unlogged_record, unlogged_record, hsame]

theorem unlogged_aside :
    TriggerHost.Unlogged fun first second : Rehearsal => first.unlogged = second.unlogged where
  elapsed {_ _} hsame := (Rehearsal.mk.inj hsame).1
  position {_ _} hsame := (Rehearsal.mk.inj hsame).2.1
  unitPosition {_ _} hsame := (Rehearsal.mk.inj hsame).2.2.1
  orderFlight order {_ _} hsame := record_unlogged_congr hsame (.fly order)
  orderDamage order {_ _} hsame := record_unlogged_congr hsame (.damage order)
  announce segment cue {_ _} hsame := record_unlogged_congr hsame (.announce segment cue)
  note notice {_ _} hsame := record_unlogged_congr hsame (.note notice)
  refl _ := rfl
  trans := Eq.trans
  noted notice rehearsal := unlogged_record rehearsal (.note notice)

/-- One custom action, which signals its parameters. -/
def marking : Handlers Rehearsal :=
  { condition := fun _ => none
    action := fun name =>
      if name = "mark" then some fun params rehearsal =>
        rehearsal.record (.signal params) else none }

theorem marking_congruence :
    marking.Congruence fun first second => first.unlogged = second.unlogged where
  condition _ _ hcondition := by cases hcondition
  action name act hact params first second hsame := by
    dsimp only [marking] at hact
    split at hact
    · cases hact
      exact record_unlogged_congr hsame (.signal params)
    · cases hact

/-- A segment with an unknown condition for those of its rules that have none of their own. -/
def doubtful : Segment :=
  { id := 1, name := none
    rules :=
      [{ cue := .bulletStart, params := none, conditions := none, actions := none },
        { cue := .bulletStart, params := none, conditions := some [], actions := none },
        { cue := .bulletEnd, params := none, conditions := some [], actions := none }]
    conditions := some [{ tag := "moonPhase", params := .null }]
    actions := some [{ tag := "damage", params := .null }] }

theorem doubtful_run_prune :
    let full := Program.compile [doubtful]
    let pruned := Program.compile [doubtful.prune marking.registry .bulletStart]
    (doubtful.prune marking.registry .bulletStart).rules.length = 1 ∧
      (full.run marking .bulletStart blank).1 = 1 ∧
      (full.run marking .bulletStart blank).1 = (pruned.run marking .bulletStart blank).1 ∧
      (full.run marking .bulletStart blank).2.unlogged =
        (pruned.run marking .bulletStart blank).2.unlogged := by
  obtain ⟨hfired, hhost, -⟩ :=
    Program.run_prune unlogged_aside marking_congruence [doubtful] .bulletStart blank
  exact ⟨by decide, rfl, hfired, hhost⟩

end Rehearsal

end Volley
