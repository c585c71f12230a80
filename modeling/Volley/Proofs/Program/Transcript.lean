import Volley.Proofs.Program.Dialogue

/-!
# Hosts that write down what they are told

A transcript is a host together with what has been said to it: every order, every custom action and
every note. A run over a transcript does to the host what a run does without it, and writes down
what the dialogue of the program says. Questions leave no trace in a host, so none are written down.
-/

namespace Volley

/-! ## What the parts of a program say -/

/-- A custom is called only if it is there. -/
def HostCall.Known (registry : Registry) : HostCall → Prop
  | .condition name _ => registry.condition name = true
  | .action name _ => registry.action name = true
  | _ => True

section Known

variable {registry : Registry}

theorem Dialogue.reject_only {P : HostCall → Prop} (hnote : ∀ notice, P (.note notice))
    (notice : Notice) :
    (reject notice).Only P :=
  only_bind (only_ask (.note notice) (hnote notice)) fun _ => only_pure false

/-- A condition asks and notes, and gives no orders. -/
theorem Condition.spoken_only (condition : Condition) :
    (condition.spoken registry).Only fun said => said.isOrder = false ∧ said.Known registry := by
  cases condition with
  | lifetime params =>
      exact Dialogue.only_bind (Dialogue.only_ask .elapsed ⟨rfl, trivial⟩)
        fun _ => Dialogue.only_pure _
  | proximity params =>
      refine Dialogue.only_bind ?_ fun place => ?_
      · rw [Proximity.placed]
        split
        · exact Dialogue.only_pure _
        · exact Dialogue.only_ask (.unitPosition _) ⟨rfl, trivial⟩
        · exact Dialogue.only_pure _
      · cases place with
        | none => exact Dialogue.only_pure false
        | some place =>
            exact Dialogue.only_bind (Dialogue.only_ask .position ⟨rfl, trivial⟩)
              fun _ => Dialogue.only_pure _
  | custom call =>
      rw [spoken, CustomCall.judged]
      split
      · rename_i hcondition
        exact Dialogue.only_ask (.condition _ _) ⟨rfl, hcondition⟩
      · exact Dialogue.reject_only (fun _ => ⟨rfl, trivial⟩) _
  | unrecognized tag | malformed tag => exact Dialogue.reject_only (fun _ => ⟨rfl, trivial⟩) _

theorem Action.spoken_only (action : Action) :
    (action.spoken registry).Only fun said => said.isAnnouncement = false ∧
      said.Known registry := by
  cases action with
  | fly order => exact Dialogue.only_ask (.fly order) ⟨rfl, trivial⟩
  | damage order => exact Dialogue.only_ask (.damage order) ⟨rfl, trivial⟩
  | custom call =>
      rw [spoken, CustomCall.taken]
      split
      · rename_i haction
        exact Dialogue.only_ask (.action _ _) ⟨rfl, haction⟩
      · exact Dialogue.only_ask (.note _) ⟨rfl, trivial⟩
  | unrecognized tag => exact Dialogue.only_ask (.note (.actionUnsupported tag)) ⟨rfl, trivial⟩
  | malformed tag => exact Dialogue.only_ask (.note (.actionMalformed tag)) ⟨rfl, trivial⟩

theorem CompiledRule.spoken_known (segment : UInt32) (cue : Cue) (fired : Nat)
    (rule : CompiledRule) :
    (rule.spoken registry segment cue fired).Only (HostCall.Known registry) := by
  rw [spoken]
  split
  · refine Dialogue.only_bind (Dialogue.only_allM fun condition _ => ?_) fun holds => ?_
    · exact condition.spoken_only.mono fun _ honly => honly.2
    · split
      · refine Dialogue.only_bind (Dialogue.only_forM fun action _ => ?_) fun _ => ?_
        · exact action.spoken_only.mono fun _ honly => honly.2
        · exact Dialogue.only_bind (Dialogue.only_ask (.announce segment cue) trivial) fun _ =>
            Dialogue.only_pure _
      · exact Dialogue.only_pure fired
  · exact Dialogue.only_pure fired

theorem Program.spoken_known (program : Program) (cue : Cue) :
    (program.spoken registry cue).Only (HostCall.Known registry) :=
  Dialogue.only_foldlM (fun segment _ fired => Dialogue.only_foldlM
    (fun rule _ fired => rule.spoken_known segment.id cue fired) fired) 0

end Known

/-! ## Transcripts -/

structure Transcript (η : Type) where
  host : η
  said : List HostCall

namespace Transcript

variable {η : Type}

def start (host : η) : Transcript η :=
  { host, said := [] }

def write (transcript : Transcript η) (said : HostCall) (host : η) : Transcript η :=
  { host, said := transcript.said ++ [said] }

instance [TriggerHost η] : TriggerHost (Transcript η) where
  elapsed transcript := TriggerHost.elapsed transcript.host
  position transcript := TriggerHost.position transcript.host
  unitPosition transcript := TriggerHost.unitPosition transcript.host
  orderFlight order transcript :=
    transcript.write (.fly order) (TriggerHost.orderFlight order transcript.host)
  orderDamage order transcript :=
    transcript.write (.damage order) (TriggerHost.orderDamage order transcript.host)
  announce segment cue transcript :=
    transcript.write (.announce segment cue) (TriggerHost.announce segment cue transcript.host)
  note notice transcript :=
    transcript.write (.note notice) (TriggerHost.note notice transcript.host)

/-- What has been said, without the notes. -/
def orders (transcript : Transcript η) : List HostCall :=
  transcript.said.filter HostCall.isOrder

end Transcript

/-- The same handlers, over hosts that write down each custom action. -/
def Handlers.transcribed {η : Type} (handlers : Handlers η) : Handlers (Transcript η) :=
  { condition := fun name => (handlers.condition
      name).map fun judge transcript params => judge transcript.host params
    action := fun name => (handlers.action name).map fun act params transcript =>
      transcript.write (.action name params) (act params transcript.host) }

/-- What a transcript keeps of the calls that are made. -/
def HostCall.statements (calls : List HostCall) : List HostCall :=
  calls.filter fun said => !said.isQuestion

theorem HostCall.filter_isOrder_statements (calls : List HostCall) :
    (statements calls).filter isOrder = calls.filter isOrder := by
  rw [statements, List.filter_filter]
  exact List.filter_congr fun said _ => by cases said <;> rfl

section Transcribed

variable {α η : Type} {handlers : Handlers η}

theorem Handlers.registry_transcribed (handlers : Handlers η) :
    handlers.transcribed.registry = handlers.registry := by
  simp only [registry, transcribed, Option.isSome_map]

variable [TriggerHost η]

theorem HostCall.answer_transcribed {said : HostCall} (hknown : said.Known handlers.registry)
    (transcript : Transcript η) :
    said.answer handlers.transcribed transcript =
      ((said.answer handlers transcript.host).1,
        { host := (said.answer handlers transcript.host).2,
          said := transcript.said ++ statements [said] }) := by
  cases said with
  | elapsed | position | unitPosition unit =>
      exact congrArg (fun said => (_, Transcript.mk transcript.host said))
        (List.append_nil transcript.said).symm
  | condition name params =>
      obtain ⟨judge, hjudge⟩ := Option.isSome_iff_exists.mp hknown
      simp [answer, Handlers.transcribed, hjudge, statements, isQuestion]
  | action name params =>
      obtain ⟨act, hact⟩ := Option.isSome_iff_exists.mp hknown
      simp [answer, Handlers.transcribed, hact, statements, isQuestion, Transcript.write]
  | fly order | damage order | announce segment cue | note notice => rfl

theorem Dialogue.play_transcribed {dialogue : Dialogue α}
    (hknown : dialogue.Only (HostCall.Known handlers.registry)) (transcript : Transcript η) :
    (dialogue.play handlers.transcribed transcript).outcome =
      let played := dialogue.play handlers transcript.host
      (played.value,
        { host := played.host
          said := transcript.said ++ HostCall.statements played.calls }) := by
  induction dialogue generalizing transcript with
  | done value =>
      exact congrArg (fun said => (value, Transcript.mk transcript.host said))
        (List.append_nil transcript.said).symm
  | call said next ih =>
      have hanswer := HostCall.answer_transcribed hknown.1 transcript
      have hrest := ih (said.answer handlers transcript.host).1 (hknown.2 _)
        { host := (said.answer handlers transcript.host).2
          said := transcript.said ++ HostCall.statements [said] }
      rw [play, hanswer]
      refine hrest.trans ?_
      dsimp only [play]
      rw [List.append_assoc, HostCall.statements, HostCall.statements, HostCall.statements,
        ← List.filter_append]
      rfl

theorem Program.runRule_transcribed (segment : UInt32) (cue : Cue) (fired : Nat)
    (transcript : Transcript η) (rule : CompiledRule) :
    runRule handlers.transcribed segment cue (fired, transcript) rule =
      let played := (rule.spoken handlers.registry segment cue fired).play handlers transcript.host
      (played.value,
        { host := played.host
          said := transcript.said ++ HostCall.statements played.calls }) := by
  rw [← rule.play_spoken handlers.transcribed segment cue (fired, transcript),
    handlers.registry_transcribed]
  exact Dialogue.play_transcribed (rule.spoken_known segment cue fired) transcript

/-- A transcript of a run shows the orders and notes of its dialogue, and
beside them the run is the same. -/
theorem Program.run_transcribed (program : Program) (cue : Cue) (transcript : Transcript η) :
    program.run handlers.transcribed cue transcript =
      let played := (program.spoken handlers.registry cue).play handlers transcript.host
      (played.value,
        { host := played.host
          said := transcript.said ++ HostCall.statements played.calls }) := by
  rw [run_eq_play, handlers.registry_transcribed]
  exact Dialogue.play_transcribed (program.spoken_known cue) transcript

end Transcribed

end Volley
