import Volley.Proofs.Catalog.Load

/-!
# Catalogs and their histories

A catalog shows under every id the row that was last written there. A load writes all the rows
that its text keeps, or none of them.
-/

namespace Volley.Catalog

inductive Call where
  | insert (shelf : Shelf) (row : shelf.Row)
  | load (shelf : Shelf) (text : String)

namespace Call

def shelf : Call → Shelf
  | .insert shelf _ => shelf
  | .load shelf _ => shelf

/-- A load writes the rows that its text keeps if none of them is at fault. -/
inductive Writes : Call → (shelf : Shelf) → UInt32 → shelf.Row → Prop
  | inserted (shelf : Shelf) (row : shelf.Row) :
      Writes (.insert shelf row) shelf (shelf.declared row) row
  | loaded {shelf : Shelf} {text : String} {written : List (String × shelf.Row)}
      {row : String × shelf.Row} {id : UInt32}
      (hwritten : shelf.written? text = some written)
      (hrows : InOrder shelf.declared (kept written))
      (hrow : row ∈ kept written) (hid : idOfKey? row.1 = some id) :
        Writes (.load shelf text) shelf id row.2

/-- No two keys of a text to be loaded spell the same id. -/
def IsClear : Call → Prop
  | .insert _ _ => True
  | .load shelf text => ∀ written, shelf.written? text = some written → Clear written

end Call

/-- The catalog after a call. A load that is refused leaves it as it is. -/
def perform (catalog : Catalog) : Call → Catalog
  | .insert shelf row => catalog.insert shelf row
  | .load shelf text =>
      match catalog.load shelf text with
      | .ok (_, next) => next
      | .error _ => catalog

/-- What a call can make of a catalog: the rows of a text are visited in some order. -/
inductive Step (catalog : Catalog) : Call → Catalog → Prop
  | inserted (shelf : Shelf) (row : shelf.Row) : Step catalog (.insert shelf row)
      (catalog.insert shelf row)
  | loaded {shelf : Shelf} {text : String} {count : Nat} {next : Catalog}
      (hloads : catalog.Loads shelf text (.ok (count, next))) : Step catalog (.load shelf text) next
  | refused {shelf : Shelf} {text : String} {error : TableError}
      (hloads : catalog.Loads shelf text (.error error)) :
      Step catalog (.load shelf text) catalog

/-- The calls made on a catalog that was empty at first, the last one first. -/
inductive Run : List Call → Catalog → Prop
  | start : Run [] empty
  | call {history : List Call} {catalog next : Catalog} {call : Call} (hrun : Run history catalog)
      (hstep : catalog.Step call next) : Run (call :: history) next

/-- The row that was last written under an id. -/
inductive LastWrite : List Call → (shelf : Shelf) → UInt32 → shelf.Row → Prop
  | now {history : List Call} {call : Call} {shelf : Shelf} {id : UInt32} {row : shelf.Row}
      (hwrites : call.Writes shelf id row) : LastWrite (call :: history) shelf id row
  | before {history : List Call} {call : Call} {shelf : Shelf} {id : UInt32} {row : shelf.Row}
      (hquiet : ∀ other, ¬ call.Writes shelf id other) (hlast : LastWrite history shelf id row) :
      LastWrite (call :: history) shelf id row

variable {catalog next : Catalog} {call : Call} {shelf : Shelf} {text : String} {id : UInt32}
  {row : shelf.Row} {history : List Call} {written : List (String × shelf.Row)}

theorem step_perform (catalog : Catalog) (call : Call) :
    catalog.Step call (catalog.perform call) := by
  cases call with
  | insert shelf row => exact .inserted shelf row
  | load shelf text =>
      have hloads := catalog.loads_load shelf text
      rw [perform]
      cases hload : catalog.load shelf text with
      | error error => exact .refused (hload ▸ hloads)
      | ok result => exact .loaded (hload ▸ hloads)

/-! ## What one call does -/

theorem Step.table_of_ne (hstep : catalog.Step call next) {place : Shelf}
    (hplace : place ≠ call.shelf) :
    next.table place = catalog.table place := by
  cases hstep with
  | inserted shelf row =>
      rw [insert_eq]
      exact table_restock_of_ne _ _ hplace _
  | loaded hloads =>
      obtain ⟨written, visit, -, -, -, -, rfl⟩ := loads_ok_iff.mp hloads
      exact table_restock_of_ne _ _ hplace _
  | refused hloads => rfl

theorem Call.Writes.declared_eq (hwrites : call.Writes shelf id row) : shelf.declared row = id := by
  cases hwrites with
  | inserted => rfl
  | loaded hwritten hrows hrow hid =>
      exact Option.some.inj ((hrows.idOfKey?_eq hrow).symm.trans hid)

/-- A call that writes under an id has one of the rows that it writes there shown. -/
theorem Step.find?_of_writes (hstep : catalog.Step call next) (hwrites : call.Writes shelf id row) :
    ∃ shown, call.Writes shelf id shown ∧ next.find? shelf id = some shown := by
  cases hwrites with
  | inserted =>
      cases hstep
      refine ⟨row, .inserted shelf row, ?_⟩
      rw [find?, insert_eq, table_restock, Table.find?_insert, if_pos rfl]
  | loaded hwritten hrows hrow hid =>
      cases hstep with
      | loaded hloads =>
          obtain ⟨shown, hshown, hspells, hfind⟩ :=
            find?_of_loads_of_mem hloads hwritten (mem_idsOf.mpr ⟨_, mem_of_mem_kept hrow, hid⟩)
          exact ⟨shown.2, .loaded hwritten hrows hshown hspells, hfind⟩
      | refused hloads =>
          obtain ⟨faulty, hfaulty, hfault⟩ := (loads_error_iff hwritten).mp hloads
          exact absurd (hfault.symm.trans (hrows faulty hfaulty)) (Option.some_ne_none _)

/-- A call that does not write under an id leaves it with the row that it shows. -/
theorem Step.find?_of_not_writes (hstep : catalog.Step call next)
    (hquiet : ∀ row, ¬ call.Writes shelf id row) :
    next.find? shelf id = catalog.find? shelf id := by
  by_cases hshelf : shelf = call.shelf
  · cases hstep with
    | inserted place row =>
        obtain rfl : shelf = place := hshelf
        have hother : shelf.declared row ≠ id := by
          rintro rfl
          exact hquiet row (.inserted shelf row)
        rw [find?, insert_eq, table_restock, Table.find?_insert, if_neg hother, find?]
    | loaded hloads =>
        obtain rfl : shelf = _ := hshelf
        obtain ⟨written, visit, hwritten, -, hrows, -, -⟩ := loads_ok_iff.mp hloads
        refine find?_of_loads_of_notMem hloads hwritten fun hid => ?_
        obtain ⟨row, hrow, hspells⟩ := mem_idsOf.mp (mem_idsOf_kept.mpr hid)
        exact hquiet row.2 (.loaded hwritten hrows hrow hspells)
    | refused hloads => rfl
  · rw [find?, find?, hstep.table_of_ne hshelf]

/-- A load is refused as a whole if its text cannot be decoded, or if a row
that it keeps is at fault. -/
theorem Step.eq_of_fault (hstep : catalog.Step (.load shelf text) next)
    (hfault : ∀ written, shelf.written? text = some written →
      ¬ InOrder shelf.declared (kept written)) :
    next = catalog := by
  generalize hcall : Call.load shelf text = call at hstep
  cases hstep with
  | inserted => cases hcall
  | loaded hloads =>
      cases hcall
      obtain ⟨written, visit, hwritten, -, hrows, -, -⟩ := loads_ok_iff.mp hloads
      exact absurd hrows (hfault written hwritten)
  | refused hloads => rfl

theorem Call.Writes.eq_of_isClear (hwrites : call.Writes shelf id row) (hclear : call.IsClear)
    {other : shelf.Row} (hother : call.Writes shelf id other) : row = other := by
  cases hwrites with
  | inserted =>
      cases hother
      rfl
  | loaded hwritten hrows hrow hid =>
      cases hother with
      | loaded hwritten' hrows' hrow' hid' =>
          obtain rfl := Option.some.inj (hwritten.symm.trans hwritten')
          have hkey := hclear _ hwritten _ (mem_of_mem_kept hrow)
            _ (mem_of_mem_kept hrow') _ hid hid'
          rw [eq_of_mem_kept hrow hrow' hkey]

/-! ## What a whole run shows -/

theorem LastWrite.exists_writes (hlast : LastWrite history shelf id row) :
    ∃ call ∈ history, call.Writes shelf id row := by
  induction hlast with
  | now hwrites => exact ⟨_, List.mem_cons_self, hwrites⟩
  | before hquiet hlast ih =>
      obtain ⟨call, hcall, hwrites⟩ := ih
      exact ⟨call, List.mem_cons_of_mem _ hcall, hwrites⟩

/-- Where no two keys of a text spell the same id, there is but one last write. -/
theorem LastWrite.unique (hlast : LastWrite history shelf id row)
    (hclear : ∀ call ∈ history, call.IsClear) {other : shelf.Row}
    (hother : LastWrite history shelf id other) : row = other := by
  induction hlast with
  | now hwrites =>
      cases hother with
      | now hother => exact hwrites.eq_of_isClear (hclear _ List.mem_cons_self) hother
      | before hquiet _ => exact absurd hwrites (hquiet _)
  | before hquiet _ ih =>
      cases hother with
      | now hother => exact absurd hother (hquiet _)
      | before _ hother =>
          exact ih (fun call hcall => hclear call (List.mem_cons_of_mem _ hcall)) hother

/-- What is found was written last. -/
theorem Run.lastWrite (hrun : Run history catalog) (hfind : catalog.find? shelf id = some row) :
    LastWrite history shelf id row := by
  induction hrun generalizing row with
  | start =>
      rw [find?, table_empty] at hfind
      cases hfind
  | call hrun hstep ih =>
      rename_i history catalog next call
      by_cases hwrites : ∃ written, call.Writes shelf id written
      · obtain ⟨written, hwritten⟩ := hwrites
        obtain ⟨shown, hshown, hnext⟩ := hstep.find?_of_writes hwritten
        obtain rfl := Option.some.inj (hfind.symm.trans hnext)
        exact .now hshown
      · have hquiet := not_exists.mp hwrites
        exact .before hquiet (ih (hstep.find?_of_not_writes hquiet ▸ hfind))

/-- What is written stays, or gives way to what is written later. -/
theorem Run.exists_find? (hrun : Run history catalog)
    (hwritten : ∃ call ∈ history, ∃ row, call.Writes shelf id row) :
    ∃ row, catalog.find? shelf id = some row := by
  induction hrun with
  | start =>
      obtain ⟨call, hcall, -⟩ := hwritten
      cases hcall
  | call hrun hstep ih =>
      rename_i history catalog next call
      by_cases hwrites : ∃ row, call.Writes shelf id row
      · obtain ⟨row, hrow⟩ := hwrites
        obtain ⟨shown, -, hnext⟩ := hstep.find?_of_writes hrow
        exact ⟨shown, hnext⟩
      · obtain ⟨earlier, hearlier, hrow⟩ := hwritten
        have hearlier : earlier ∈ history := by
          refine (List.mem_cons.mp hearlier).resolve_left ?_
          rintro rfl
          exact hwrites hrow
        rw [hstep.find?_of_not_writes (not_exists.mp hwrites)]
        exact ih ⟨earlier, hearlier, hrow⟩

/-- A catalog keeps, under its id, the row that was last written there, and takes
a text as a whole or not at all. -/
structure LastWriter (history : List Call) (catalog : Catalog) : Prop where
  declares : ∀ {shelf id row}, catalog.find? shelf id = some row → shelf.declared row = id
  last : ∀ {shelf id row}, catalog.find? shelf id = some row → LastWrite history shelf id row
  only : (∀ call ∈ history, call.IsClear) →
    ∀ {shelf id row}, LastWrite history shelf id row → catalog.find? shelf id = some row
  blank : ∀ {shelf id}, catalog.find? shelf id = none ↔
    ∀ call ∈ history, ∀ row, ¬ call.Writes shelf id row
  apart : ∀ {call next}, catalog.Step call next →
    ∀ place ≠ call.shelf, next.table place = catalog.table place
  whole : ∀ {shelf text next}, catalog.Step (.load shelf text) next →
    (∀ written, shelf.written? text = some written → ¬ InOrder shelf.declared (kept written)) →
    next = catalog

theorem Run.lastWriter (hrun : Run history catalog) : LastWriter history catalog where
  declares := by
    intro shelf id row hfind
    obtain ⟨call, -, hwrites⟩ := (hrun.lastWrite hfind).exists_writes
    exact hwrites.declared_eq
  last := hrun.lastWrite
  only := by
    intro hclear shelf id row hlast
    obtain ⟨call, hcall, hwrites⟩ := hlast.exists_writes
    obtain ⟨shown, hfind⟩ := hrun.exists_find? ⟨call, hcall, row, hwrites⟩
    rw [hfind, hlast.unique hclear (hrun.lastWrite hfind)]
  blank := by
    intro shelf id
    constructor
    · intro hnone call hcall row hwrites
      obtain ⟨shown, hfind⟩ := hrun.exists_find? ⟨call, hcall, row, hwrites⟩
      exact nomatch hnone.symm.trans hfind
    · intro hquiet
      refine Option.eq_none_iff_forall_ne_some.mpr fun row hfind => ?_
      obtain ⟨call, hcall, hwrites⟩ := (hrun.lastWrite hfind).exists_writes
      exact hquiet call hcall row hwrites
  apart := fun hstep _ hplace => hstep.table_of_ne hplace
  whole := fun hstep hfault => hstep.eq_of_fault hfault

/-- A text with a row at fault is refused after one that was loaded. -/
theorem repeated_then_faulty_lastWriter :
    let calls := [Call.load .terrains faultyText, Call.load .terrains repeatedText]
    let catalog := (empty.perform (.load .terrains repeatedText)).perform
      (.load .terrains faultyText)
    Run calls catalog ∧ LastWriter calls catalog ∧
      (catalog.find? .terrains 5).map Terrain.name = some "b" := by
  intro calls catalog
  have hrun : Run calls catalog := .call (.call .start (step_perform _ _)) (step_perform _ _)
  exact ⟨hrun, hrun.lastWriter, by decide +kernel⟩

end Volley.Catalog
