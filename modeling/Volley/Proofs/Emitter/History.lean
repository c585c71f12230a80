import Mathlib.Data.List.Induction
import Mathlib.Data.List.Nodup
import Mathlib.Data.List.TakeWhile
import Volley.Emitter

/-!
# The history of an emitter

An emitter keeps the registrations that have not been revoked, in their order, and what each of them
has heard. So every event goes to them once and in that order, and what a listener hears is a matter
of the events and of its own registration, whatever the others do.
-/

namespace Volley.Emitter

/-! ## Acts -/

inductive Act where
  | on (kind : EventKind) (respond : List BulletEvent → BulletEvent → Response)
  | off (kind : EventKind) (id : ListenerId)
  | emit (event : BulletEvent)

def perform (emitter : Emitter) : Act → Emitter × List Effect
  | .on kind respond => ((emitter.on kind (.host respond)).1, [])
  | .off kind id => ((emitter.off kind id).1, [])
  | .emit event => emitter.emit event

def after (emitter : Emitter) (acts : List Act) : Emitter :=
  acts.foldl (fun emitter act => (emitter.perform act).1) emitter

def effects : Emitter → List Act → List Effect
  | _, [] => []
  | emitter, act :: later => (emitter.perform act).2 ++ (emitter.perform act).1.effects later

namespace Act

def revokes (kind : EventKind) (id : ListenerId) : Act → Bool
  | .off other number => decide (kind = other ∧ id = number)
  | _ => false

/-- The event that is published by an act, if it is one of the kind. -/
def event? (kind : EventKind) : Act → Option BulletEvent
  | .emit event => if kind = event.kind then some event else none
  | _ => none

/-- What an act is to one listener: an event of its kind, or the end of its registration. -/
def concern? (kind : EventKind) (id : ListenerId) (act : Act) : Option (Option BulletEvent) :=
  if act.revokes kind id then some none else (act.event? kind).map some

end Act

/-- A listener, the handle that it was given, and what has been done since. -/
structure Registration where
  id : ListenerId
  kind : EventKind
  respond : List BulletEvent → BulletEvent → Response
  since : List Act

namespace Registration

def stands (registration : Registration) : Bool :=
  registration.since.all fun act => !act.revokes registration.kind registration.id

/-- The events of the kind that are published until the registration is revoked. -/
def due (registration : Registration) : List BulletEvent :=
  (registration.since.takeWhile fun act => !act.revokes registration.kind registration.id).filterMap
    (Act.event? registration.kind)

def andThen (registration : Registration) (act : Act) : Registration :=
  { registration with since := registration.since ++ [act] }

def listener (registration : Registration) : Listener :=
  { id := registration.id, kind := registration.kind, ear := .host registration.respond
    heard := registration.due.reverse }

end Registration

def registrations : Emitter → List Act → List Registration
  | _, [] => []
  | emitter, .on kind respond :: later =>
      { id := (emitter.on kind (.host respond)).2, kind, respond, since := later } ::
        (emitter.on kind (.host respond)).1.registrations later
  | emitter, act :: later => (emitter.perform act).1.registrations later

/-- The registrations that have not been revoked. -/
def standing (emitter : Emitter) (acts : List Act) : List Registration :=
  (emitter.registrations acts).filter Registration.stands

/-- The calls of listeners: who is called with which event. -/
def calls (effects : List Effect) : List (ListenerId × BulletEvent) :=
  effects.filterMap fun
    | .heard id _ event => some (id, event)
    | _ => none

def heardBy (id : ListenerId) (effects : List Effect) : List BulletEvent :=
  ((calls effects).filter fun call => call.1 = id).map Prod.snd

variable {emitter : Emitter} {acts : List Act} {act : Act} {registration : Registration}
  {kind : EventKind} {id : ListenerId}

/-! ## One act more -/

theorem after_concat : emitter.after (acts ++ [act]) = ((emitter.after acts).perform act).1 := by
  rw [after, List.foldl_append]
  rfl

theorem effects_concat :
    emitter.effects (acts ++ [act]) = emitter.effects acts ++
      ((emitter.after acts).perform act).2 := by
  induction acts generalizing emitter with
  | nil => exact List.append_nil _
  | cons first rest ih => rw [List.cons_append, effects, effects, ih, List.append_assoc]; rfl

theorem registrations_concat :
    emitter.registrations (acts ++ [act]) =
      (emitter.registrations acts).map (·.andThen act) ++
        (emitter.after acts).registrations [act] := by
  induction acts generalizing emitter with
  | nil => rfl
  | cons first rest ih =>
      cases first with
      | on kind respond => exact congrArg (List.cons _) ih
      | off kind id => exact ih
      | emit event => exact ih

theorem issued_after :
    (emitter.after acts).issued = emitter.issued + (emitter.registrations acts).length := by
  induction acts generalizing emitter with
  | nil => rfl
  | cons first rest ih =>
      cases first with
      | on kind respond =>
          have hrest := @ih (emitter.on kind (.host respond)).1
          exact hrest.trans (Nat.succ_add_eq_add_succ _ _)
      | off kind id => exact ih
      | emit event => exact ih

/-- The handles that are given out are numbered on. -/
theorem ids_registrations :
    (emitter.registrations acts).map Registration.id =
      (List.range' (emitter.issued + 1) (emitter.registrations acts).length).map ListenerId.mk := by
  induction acts generalizing emitter with
  | nil => rfl
  | cons first rest ih =>
      cases first with
      | on kind respond => exact congrArg (List.cons _) ih
      | off kind id => exact ih
      | emit event => exact ih

theorem nodup_ids : ((emitter.registrations acts).map Registration.id).Nodup := by
  rw [ids_registrations]
  exact (List.nodup_range' 1 Nat.one_pos).map fun _ _ => ListenerId.mk.inj

theorem number_le_issued (hid : id ∈ (emitter.registrations acts).map Registration.id) :
    id.number ≤ (emitter.after acts).issued := by
  rw [ids_registrations] at hid
  obtain ⟨number, hnumber, rfl⟩ := List.mem_map.mp hid
  have := List.mem_range'_1.mp hnumber
  rw [issued_after]
  dsimp only
  omega

namespace Registration

@[simp]
theorem stands_andThen : (registration.andThen act).stands =
    (registration.stands && !act.revokes registration.kind registration.id) := by
  simp [stands, andThen, List.all_append]

/-- An act that ends a registration publishes nothing. -/
theorem due_andThen : (registration.andThen act).due =
    registration.due ++ if registration.stands then (act.event? registration.kind).toList
      else [] := by
  obtain ⟨id, kind, respond, since⟩ := registration
  rw [due, due, andThen, stands]
  induction since with
  | nil =>
      cases hrevokes : act.revokes kind id with
      | false => cases hevent : act.event? kind <;> simp [hrevokes, hevent]
      | true =>
          cases act with
          | off other number => simp [hrevokes, Act.event?]
          | _ => cases hrevokes
  | cons first rest ih =>
      cases hrevokes : first.revokes kind id with
      | true => simp [hrevokes]
      | false =>
          dsimp only at ih ⊢
          rw [List.cons_append, List.takeWhile_cons_of_pos (by simp [hrevokes]),
            List.takeWhile_cons_of_pos (by simp [hrevokes]),
            List.filterMap_cons, List.filterMap_cons, List.all_cons, hrevokes, ih]
          cases first.event? kind <;> rfl

theorem listener_andThen
    (hstands : registration.stands = true) : (registration.andThen act).listener =
    { registration.listener with
      heard := (act.event? registration.kind).toList ++ registration.listener.heard } := by
  rw [listener, due_andThen, if_pos hstands, List.reverse_append]
  cases act.event? registration.kind <;> rfl

end Registration

/-! ## What an emitter keeps -/

theorem standing_concat : emitter.standing (acts ++ [act]) =
    ((emitter.standing acts).filter
      fun registration => !act.revokes registration.kind registration.id).map (·.andThen act) ++
      (emitter.after acts).registrations [act] := by
  rw [standing, registrations_concat, List.filter_append, List.filter_map, standing,
    List.filter_filter]
  congr 2
  · refine List.filter_congr fun registration _ => ?_
    rw [Function.comp_apply, Registration.stands_andThen, Bool.and_comm]
  · cases act <;> rfl

theorem listeners_after :
    (empty.after acts).listeners = (empty.standing acts).map Registration.listener := by
  induction acts using List.reverseRecOn with
  | nil => rfl
  | append_singleton acts act ih =>
      have hkept : ∀ registration ∈ empty.standing acts, (registration.andThen act).listener =
          { registration.listener with
            heard := (act.event? registration.kind).toList ++ registration.listener.heard } := by
        intro registration hmem
        exact Registration.listener_andThen (List.mem_filter.mp hmem).2
      rw [after_concat, standing_concat, List.map_append, List.map_map]
      cases act with
      | on kind respond =>
          have hsame := List.map_congr_left hkept
          simp only [Act.revokes, Bool.not_false, List.filter_true]
          rw [perform, on, ih]
          exact congrArg (· ++ _) hsame.symm
      | off kind id =>
          rw [perform, off, ih, List.filter_map]
          refine (List.map_congr_left fun registration hmem => ?_).trans (List.append_nil _).symm
          exact (hkept registration (List.mem_of_mem_filter hmem)).symm
      | emit event =>
          simp only [Act.revokes, Bool.not_false, List.filter_true]
          rw [perform, emit, ih, List.map_map]
          refine (List.map_congr_left fun registration hmem => ?_).trans (List.append_nil _).symm
          rw [Function.comp_apply, Function.comp_apply, hkept registration hmem, Act.event?]
          by_cases hkind : registration.kind = event.kind
          · rw [if_pos hkind]
            exact if_pos hkind
          · rw [if_neg hkind]
            exact if_neg hkind

/-! ## Who is called -/

theorem calls_append (first rest : List Effect) :
    calls (first ++ rest) = calls first ++ calls rest :=
  List.filterMap_append

@[simp]
theorem heardBy_append (id : ListenerId) (first rest : List Effect) :
    heardBy id (first ++ rest) = heardBy id first ++ heardBy id rest := by
  rw [heardBy, calls_append, List.filter_append, List.map_append, heardBy, heardBy]

theorem Registration.calls_effects (registration : Registration) (event : BulletEvent) :
    calls (registration.listener.effects event) = [(registration.id, event)] := by
  rw [Listener.effects, listener]
  dsimp only
  cases registration.respond registration.due.reverse event <;> rfl

theorem calls_emit (acts : List Act)
    (event : BulletEvent) : calls ((empty.after acts).emit event).2 =
    ((empty.standing acts).filter fun registration => registration.kind = event.kind).map
      fun registration =>
      (registration.id, event) := by
  rw [emit, listeners_after, List.filter_map, calls, List.filterMap_flatMap, List.flatMap_map,
    List.map_eq_flatMap]
  exact List.flatMap_congr fun registration _ => registration.calls_effects event

/-- What bears a handle of its own stands apart from what is before it and behind it. -/
theorem exists_apart {α : Type} {handle : α → ListenerId} {all : List α} {one : α}
    (hnodup : (all.map handle).Nodup) (hone : one ∈ all) :
    ∃ before rest, all = before ++ one :: rest ∧ (∀ other ∈ before, handle other ≠ handle one) ∧
      ∀ other ∈ rest, handle other ≠ handle one := by
  obtain ⟨before, rest, rfl⟩ := List.append_of_mem hone
  rw [List.map_append, List.map_cons, List.nodup_middle, List.nodup_cons,
    ← List.map_append] at hnodup
  have happart : ∀ other ∈ before ++ rest, handle other ≠ handle one := fun other hother hsame =>
    hnodup.1 (hsame ▸ List.mem_map_of_mem hother)
  obtain ⟨hbefore, hrest⟩ := List.forall_mem_append.mp happart
  exact ⟨before, rest, rfl, hbefore, hrest⟩

theorem filter_id_eq (hmem : registration ∈ emitter.registrations acts) :
    (emitter.registrations acts).filter (fun other => other.id = registration.id) =
      [registration] := by
  obtain ⟨before, rest, hsplit, hbefore, hrest⟩ := exists_apart nodup_ids hmem
  rw [hsplit, List.filter_append, List.filter_cons_of_pos (by simp),
    List.filter_eq_nil_iff.mpr (by simpa using hbefore),
    List.filter_eq_nil_iff.mpr (by simpa using hrest), List.nil_append]

/-- A listener is called for an event of its kind as long as its registration stands. -/
theorem heardBy_emit (hmem : registration ∈ empty.registrations acts) (event : BulletEvent) :
    heardBy registration.id ((empty.after acts).emit event).2 =
      if registration.stands then ((Act.emit event).event? registration.kind).toList else [] := by
  have hcalled : ((empty.standing acts).filter fun other => other.kind = event.kind).filter
      (fun other => other.id = registration.id) =
        [registration].filter fun other => other.kind = event.kind && other.stands := by
    rw [standing, List.filter_filter, List.filter_filter, ← filter_id_eq hmem, List.filter_filter]
    exact List.filter_congr fun other _ => by rw [Bool.and_assoc, Bool.and_comm]
  have hheard : heardBy registration.id ((empty.after acts).emit event).2 =
      ([registration].filter fun other => other.kind = event.kind && other.stands).map
        fun _ => event := by
    rw [heardBy, calls_emit, List.filter_map, List.map_map, ← hcalled]
    rfl
  rw [hheard, Act.event?]
  by_cases hkind : registration.kind = event.kind <;> cases hstands :
    registration.stands <;> simp [hkind, hstands]

theorem mem_ids_of_called {call : ListenerId × BulletEvent}
    (hcall : call ∈ calls (empty.effects acts)) :
    call.1 ∈ (empty.registrations acts).map Registration.id := by
  induction acts using List.reverseRecOn with
  | nil => cases hcall
  | append_singleton acts act ih =>
      rw [effects_concat, calls_append, List.mem_append] at hcall
      rw [registrations_concat, List.map_append, List.map_map, List.mem_append]
      refine .inl (hcall.elim ih fun hanswer => ?_)
      cases act with
      | emit event =>
          rw [perform, calls_emit] at hanswer
          obtain ⟨registration, hmem, rfl⟩ := List.mem_map.mp hanswer
          exact List.mem_map_of_mem (List.mem_of_mem_filter (List.mem_of_mem_filter hmem))
      | _ => cases hanswer

/-- A listener hears the events of its kind that are published until its registration is revoked. -/
theorem heardBy_effects (hmem : registration ∈ empty.registrations acts) :
    heardBy registration.id (empty.effects acts) = registration.due := by
  induction acts using List.reverseRecOn generalizing registration with
  | nil => cases hmem
  | append_singleton acts act ih =>
      rw [registrations_concat, List.mem_append] at hmem
      rw [effects_concat, heardBy_append]
      rcases hmem with hold | hnew
      · obtain ⟨earlier, hearlier, rfl⟩ := List.mem_map.mp hold
        have hanswer : heardBy earlier.id ((empty.after acts).perform act).2 =
            if earlier.stands then (act.event? earlier.kind).toList else [] := by
          cases act with
          | emit event => exact heardBy_emit hearlier event
          | _ => exact (ite_self _).symm
        rw [Registration.due_andThen, ← hanswer, ← ih hearlier]
        rfl
      · cases act with
        | on kind respond =>
            obtain rfl := List.mem_singleton.mp hnew
            have hfresh : ∀ call ∈ calls (empty.effects acts),
                call.1 ≠ ((empty.after acts).on kind (.host respond)).2 := by
              intro call hcall hsame
              have hle := number_le_issued (mem_ids_of_called hcall)
              rw [hsame] at hle
              exact Nat.not_succ_le_self _ hle
            rw [heardBy, List.filter_eq_nil_iff.mpr
              fun call hcall => by simpa using hfresh call hcall]
            rfl
        | _ => cases hnew

/-! ## Unsubscribing -/

theorem nodup_listeners (acts : List Act) :
    ((empty.after acts).listeners.map Listener.id).Nodup := by
  rw [listeners_after, List.map_map]
  exact nodup_ids.sublist (List.filter_sublist.map _)

theorem answersTo_eq {listener : Listener} (hmem : listener ∈ (empty.after acts).listeners)
    (kind : EventKind) (id : ListenerId) :
    listener.answersTo kind id = decide (listener.kind = kind ∧ listener.id = id) := by
  rw [listeners_after] at hmem
  obtain ⟨registration, -, rfl⟩ := List.mem_map.mp hmem
  rfl

/-- Either the one listener that has the handle and the kind is unsubscribed, or
there is none and nothing changes. -/
theorem off_cases (acts : List Act) (kind : EventKind) (id : ListenerId) :
    (∃ before listener rest, (empty.after acts).listeners = before ++ listener :: rest ∧
        (listener.kind = kind ∧ listener.id = id) ∧
          (empty.after acts).off kind id =
            ({ empty.after acts with listeners := before ++ rest }, true)) ∨
      ((∀ listener ∈ (empty.after acts).listeners, ¬(listener.kind = kind ∧ listener.id = id)) ∧
        (empty.after acts).off kind id = (empty.after acts, false)) := by
  have hanswers : ∀ listener ∈ (empty.after acts).listeners, listener.answersTo kind id =
      decide (listener.kind = kind ∧ listener.id = id) :=
        fun listener hmem => answersTo_eq hmem kind id
  by_cases hfound : ∃ listener ∈ (empty.after acts).listeners, listener.kind = kind ∧
    listener.id = id
  · obtain ⟨listener, hmem, hkind, hid⟩ := hfound
    obtain ⟨before, rest, hsplit, hbefore, hrest⟩ := exists_apart (nodup_listeners acts) hmem
    refine .inl ⟨before, listener, rest, hsplit, ⟨hkind, hid⟩, ?_⟩
    rw [hsplit] at hanswers
    have hothers : ∀ other ∈ before ++ rest, other.answersTo kind id = false := by
      intro other hother
      have hne : other.id ≠ listener.id :=
        (List.mem_append.mp hother).elim (hbefore other) (hrest other)
      have hmember := List.mem_append.mpr
        ((List.mem_append.mp hother).imp_right (List.mem_cons_of_mem listener))
      rw [hanswers other hmember, decide_eq_false_iff_not]
      exact fun hsame => hne (hsame.2.trans hid.symm)
    have hthis : listener.answersTo kind id = true :=
      (hanswers listener (List.mem_append_right _ List.mem_cons_self)).trans
        (decide_eq_true ⟨hkind, hid⟩)
    refine Prod.ext ?_ ?_
    · rw [off, hsplit, List.filter_append, List.filter_cons_of_neg (by simp [hthis]),
        ← List.filter_append,
        List.filter_eq_self.mpr fun other hother => by simp [hothers other hother]]
    · rw [off, hsplit, List.any_append, List.any_cons, hthis, Bool.true_or, Bool.or_true]
  · have hnone : ∀ listener ∈ (empty.after acts).listeners,
        ¬(listener.kind = kind ∧ listener.id = id) :=
      fun listener hmem hsame => hfound ⟨listener, hmem, hsame⟩
    refine .inr ⟨hnone, Prod.ext ?_ ?_⟩
    · rw [off, List.filter_eq_self.mpr fun listener hmem =>
        by simp [hanswers listener hmem, hnone listener hmem]]
    · rw [off, List.any_eq_false.mpr fun listener hmem =>
        by simp [hanswers listener hmem, hnone listener hmem]]

/-! ## Two histories -/

theorem mem_registrations (before : List Act) (kind : EventKind)
    (respond : List BulletEvent → BulletEvent → Response) (since : List Act) :
    { id := ((emitter.after before).on kind (.host respond)).2, kind, respond, since } ∈
      emitter.registrations (before ++ .on kind respond :: since) := by
  induction before generalizing emitter with
  | nil => exact List.mem_cons_self
  | cons first rest ih =>
      cases first with
      | on other otherRespond => exact List.mem_cons_of_mem _ ih
      | off other number => exact ih
      | emit event => exact ih

/-- What is due to a listener follows from what concerns it. -/
theorem Registration.due_eq (registration : Registration) : registration.due =
    ((registration.since.filterMap (Act.concern? registration.kind registration.id)).takeWhile
      Option.isSome).filterMap
      fun concern => concern := by
  obtain ⟨id, kind, respond, since⟩ := registration
  rw [due]
  dsimp only
  induction since with
  | nil => rfl
  | cons first rest ih =>
      cases hrevokes : first.revokes kind id with
      | true => simp [Act.concern?, hrevokes]
      | false => cases hevent : first.event? kind <;> simp [Act.concern?, hrevokes, hevent, ih]

/-! ## Delivery -/

/-- However an emitter is used: an event goes once to each listener that was registered for its kind
and not revoked by that kind and its handle, in the order of registration. No handle is given out
twice. A call of `off` unsubscribes the one listener that has the handle and the kind, or it tells
that there is none and changes nothing. In two histories a listener hears the same if the same
concerns it, whatever is done by other listeners and to them. -/
theorem delivers_to_subscribers :
    (∀ acts event, calls ((empty.after acts).emit event).2 =
        ((empty.standing acts).filter fun registration => registration.kind = event.kind).map
          fun registration =>
          (registration.id, event)) ∧
      (∀ acts, ((empty.registrations acts).map Registration.id).Nodup) ∧
      (∀ acts kind id,
        (∃ before listener rest, (empty.after acts).listeners = before ++ listener :: rest ∧
            (listener.kind = kind ∧ listener.id = id) ∧
              (empty.after acts).off kind id =
                ({ empty.after acts with listeners := before ++ rest }, true)) ∨
          ((∀ listener ∈ (empty.after acts).listeners, ¬(listener.kind = kind ∧ listener.id = id)) ∧
            (empty.after acts).off kind id = (empty.after acts, false))) ∧
      ∀ kind respond respond' before before' since since',
        let id := ((empty.after before).on kind (.host respond)).2
        let id' := ((empty.after before').on kind (.host respond')).2
        since.filterMap (Act.concern? kind id) = since'.filterMap (Act.concern? kind id') →
          heardBy id (empty.effects (before ++ .on kind respond :: since)) =
            heardBy id' (empty.effects (before' ++ .on kind respond' :: since')) := by
  refine ⟨calls_emit, fun acts => nodup_ids, off_cases, ?_⟩
  intro kind respond respond' before before' since since' id id' hconcerns
  have hdue : ∀ before respond since, heardBy ((empty.after before).on kind (.host respond)).2
      (empty.effects (before ++ .on kind respond :: since)) =
        ((since.filterMap (Act.concern? kind
          ((empty.after before).on kind (.host respond)).2)).takeWhile
          Option.isSome).filterMap fun concern => concern := by
    intro before respond since
    rw [heardBy_effects (mem_registrations before kind respond since), Registration.due_eq]
  rw [hdue, hdue, hconcerns]

/-- A listener hears an event as it does alone where another one before it panics
and a third one is unsubscribed. -/
theorem heard_among_others :
    let sole : List Act := [.emit (.started ⟨5⟩)]
    let crowded : List Act :=
      [.on .started fun _ _ => .failed "boom", .off .started ⟨3⟩, .emit (.started ⟨5⟩)]
    let panics : Act := .on .started fun _ _ => .panicked none
    sole.filterMap (Act.concern? .started ⟨1⟩) = crowded.filterMap (Act.concern? .started ⟨2⟩) ∧
      heardBy ⟨1⟩ (empty.effects (.on .started (fun _ _ => .ok) :: sole)) =
        heardBy ⟨2⟩ (empty.effects (panics :: .on .started (fun _ _ => .ok) :: crowded)) ∧
      heardBy ⟨2⟩ (empty.effects (panics :: .on .started (fun _ _ => .ok) :: crowded)) =
        [.started ⟨5⟩] := by
  intro sole crowded panics
  exact ⟨rfl, delivers_to_subscribers.2.2.2 .started _ _ [] [panics] sole crowded rfl, rfl⟩

end Volley.Emitter
