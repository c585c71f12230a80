import Mathlib.Data.List.Induction
import Mathlib.Data.List.Nodup
import Volley.Config.Catalog

/-!
# The rows of a table text

A table text writes rows under keys. Of the rows under one key the last is kept. A row that is kept
is at fault if its key spells no id, or another id than the row declares, and a table is refused for
the first row at fault that is visited.
-/

namespace Volley

/-! ## The tables of a catalog -/

inductive Shelf where
  | blueprints
  | levels
  | terrains
  deriving DecidableEq, Repr

namespace Shelf

abbrev Row : Shelf → Type
  | .blueprints => Blueprint
  | .levels => Level
  | .terrains => Terrain

def declared : (shelf : Shelf) → shelf.Row → UInt32
  | .blueprints => Blueprint.id
  | .levels => Level.id
  | .terrains => Terrain.id

instance stored : (shelf : Shelf) → Stored shelf.Row
  | .blueprints => inferInstanceAs (Stored Blueprint)
  | .levels => inferInstanceAs (Stored Level)
  | .terrains => inferInstanceAs (Stored Terrain)

end Shelf

namespace Catalog

def table (catalog : Catalog) : (shelf : Shelf) → Table UInt32 shelf.Row
  | .blueprints => catalog.blueprints
  | .levels => catalog.levels
  | .terrains => catalog.terrains

/-- The catalog with another table on one of its shelves. -/
def restock (catalog : Catalog) : (shelf : Shelf) → Table UInt32 shelf.Row → Catalog
  | .blueprints, blueprints => { catalog with blueprints }
  | .levels, levels => { catalog with levels }
  | .terrains, terrains => { catalog with terrains }

def insert (catalog : Catalog) : (shelf : Shelf) → shelf.Row → Catalog
  | .blueprints => catalog.insertBlueprint
  | .levels => catalog.insertLevel
  | .terrains => catalog.insertTerrain

def load (catalog : Catalog) : Shelf → String → Except TableError (Nat × Catalog)
  | .blueprints => catalog.loadBlueprints
  | .levels => catalog.loadLevels
  | .terrains => catalog.loadTerrains

variable (catalog : Catalog) (shelf : Shelf)

@[simp]
theorem table_empty : empty.table shelf = .empty := by
  cases shelf <;> rfl

@[simp]
theorem table_restock (table : Table UInt32 shelf.Row) :
    (catalog.restock shelf table).table shelf = table := by
  cases shelf <;> rfl

theorem table_restock_of_ne {other : Shelf} (hother : other ≠ shelf)
    (table : Table UInt32 shelf.Row) :
    (catalog.restock shelf table).table other = catalog.table other := by
  cases shelf <;> cases other <;> first | rfl | exact absurd rfl hother

theorem insert_eq (row : shelf.Row) :
    catalog.insert shelf row =
      catalog.restock shelf ((catalog.table shelf).insert (shelf.declared row) row) := by
  cases shelf <;> rfl

theorem load_eq (text : String) :
    catalog.load shelf text = (readTable shelf.declared text).map fun rows =>
      (rows.length, catalog.restock shelf ((catalog.table shelf).insertAll rows)) := by
  cases shelf <;> rfl

end Catalog

/-! ## Rows that are written and rows that are kept -/

section Rows

variable {ν α : Type}

/-- The rows under the names of an object's members, as often as they are written. -/
def Decoder.rows (decoder : Decoder ν α) (room : Room) :
    List (Option String × Json ν) → Option (List (String × α))
  | [] => some []
  | (none, _) :: _ => none
  | (some key, tree) :: rest => do
      let row ← decoder room tree
      let others ← Decoder.rows decoder room rest
      return (key, row) :: others

/-- All rows of a table in the order in which they are written. -/
def Decoder.written (decoder : Decoder ν α) : Decoder ν (List (String × α))
  | room, .object members => do
      let inner ← room.enter?
      Decoder.rows decoder inner members
  | _, _ => none

def keep (found : List (String × α)) (row : String × α) : List (String × α) :=
  found.filter (fun earlier => earlier.1 ≠ row.1) ++ [row]

/-- The last row under each key. -/
def kept (rows : List (String × α)) : List (String × α) :=
  rows.foldl keep []

theorem Decoder.table_rows_eq (decoder : Decoder ν α) (room : Room)
    (members : List (Option String × Json ν)) (found : List (String × α)) :
    Decoder.table.rows decoder room members found = (Decoder.rows decoder room members).map
      fun rows => rows.foldl keep found := by
  induction members generalizing found with
  | nil => rfl
  | cons member rest ih =>
      obtain ⟨_ | key, tree⟩ := member
      · rfl
      · cases hrow : decoder room tree with
        | none => simp [Decoder.table.rows, Decoder.rows, hrow]
        | some row =>
            simp only [Decoder.table.rows, Decoder.rows, hrow, Option.bind_eq_bind,
              Option.bind_some, ih]
            cases Decoder.rows decoder room rest with
            | none => rfl
            | some others => rfl

theorem Decoder.table_eq (decoder : Decoder ν α) (room : Room) (tree : Json ν) :
    Decoder.table decoder room tree = (Decoder.written decoder room tree).map kept := by
  cases tree with
  | object members =>
      cases hroom : room.enter? with
      | none => simp [Decoder.table, Decoder.written, hroom]
      | some inner =>
          simp only [Decoder.table, Decoder.written, hroom, Option.bind_eq_bind, Option.bind_some]
          exact decoder.table_rows_eq inner members []
  | _ => rfl

theorem kept_concat (rows : List (String × α)) (row : String × α) :
    kept (rows ++ [row]) = keep (kept rows) row := by
  simp [kept]

/-- A row is kept if no other row is written under its key later on. -/
theorem mem_kept_iff {rows : List (String × α)} {row : String × α} :
    row ∈ kept rows ↔ ∃ earlier later, rows = earlier ++ row :: later ∧
      row.1 ∉ later.map Prod.fst := by
  induction rows using List.reverseRecOn with
  | nil => simp [kept]
  | append_singleton rows last ih =>
      rw [kept_concat, keep, List.mem_append, List.mem_filter, List.mem_singleton, ih]
      constructor
      · rintro (⟨⟨earlier, later, rfl, hlater⟩, hne⟩ | rfl)
        · refine ⟨earlier, later ++ [last], by simp, ?_⟩
          simpa using ⟨by simpa using hlater, by simpa using hne⟩
        · exact ⟨rows, [], rfl, by simp⟩
      · rintro ⟨earlier, later, hrows, hlater⟩
        rcases List.eq_nil_or_concat later with rfl | ⟨later, final, rfl⟩
        · right
          exact (List.append_inj_right' hrows rfl |> List.singleton_inj.mp).symm
        · rw [List.concat_eq_append] at hrows hlater
          rw [← List.cons_append, ← List.append_assoc] at hrows
          obtain ⟨rfl, hfinal⟩ := List.append_inj' hrows rfl
          obtain rfl := List.singleton_inj.mp hfinal
          rw [List.map_append, List.mem_append, not_or] at hlater
          left
          exact ⟨⟨earlier, later, rfl, hlater.1⟩, by simpa using hlater.2⟩

theorem mem_of_mem_kept {rows : List (String × α)} {row : String × α}
    (hrow : row ∈ kept rows) : row ∈ rows := by
  obtain ⟨earlier, later, rfl, -⟩ := mem_kept_iff.mp hrow
  simp

theorem nodup_kept (rows : List (String × α)) : ((kept rows).map Prod.fst).Nodup := by
  induction rows using List.reverseRecOn with
  | nil => simp [kept]
  | append_singleton rows last ih =>
      rw [kept_concat, keep, List.map_append, List.map_singleton, List.nodup_append]
      refine ⟨ih.sublist (List.filter_sublist.map _), List.nodup_singleton _, ?_⟩
      intro key hkey other hother
      obtain ⟨row, hrow, rfl⟩ := List.mem_map.mp hkey
      rw [List.mem_singleton.mp hother]
      simpa using (List.mem_filter.mp hrow).2

/-- Under the key of every row some row is kept. -/
theorem exists_mem_kept {rows : List (String × α)} {row : String × α} (hrow : row ∈ rows) :
    ∃ last ∈ kept rows, last.1 = row.1 := by
  induction rows using List.reverseRecOn with
  | nil => cases hrow
  | append_singleton rows last ih =>
      rw [kept_concat, keep]
      by_cases hsame : last.1 = row.1
      · exact ⟨last, by simp, hsame⟩
      · have hearlier : row ∈ rows := by
          rcases List.mem_append.mp hrow with hearlier | hlast
          · exact hearlier
          · exact absurd (congrArg Prod.fst (List.mem_singleton.mp hlast)).symm hsame
        obtain ⟨found, hfound, hkey⟩ := ih hearlier
        refine ⟨found, List.mem_append_left _ (List.mem_filter.mpr ⟨hfound, ?_⟩), hkey⟩
        simpa [hkey] using Ne.symm hsame

theorem eq_of_mem_kept {rows : List (String × α)} {row other : String × α} (hrow : row ∈ kept rows)
    (hother : other ∈ kept rows) (hkey : row.1 = other.1) : row = other :=
  List.inj_on_of_nodup_map (nodup_kept rows) hrow hother hkey

/-! ## Rows at fault -/

variable (declared : α → UInt32)

/-- What a table is refused for on account of a row. -/
def fault? (row : String × α) : Option TableError :=
  match idOfKey? row.1 with
  | none => some (.badKey row.1)
  | some id => if declared row.2 = id then none else some (.idMismatch id (declared row.2))

theorem fault?_eq_none_iff {row : String × α} :
    fault? declared row = none ↔ idOfKey? row.1 = some (declared row.2) := by
  rw [fault?]
  cases idOfKey? row.1 with
  | none => simp
  | some id =>
      by_cases hid : declared row.2 = id
      · simp [hid]
      · simp [hid, Ne.symm hid]

theorem Catalog.checkRows_eq (rows : List (String × α)) :
    Catalog.checkRows declared rows =
      match rows.findSome? (fault? declared) with
      | some error => .error error
      | none => .ok (rows.map fun row => (declared row.2, row.2)) := by
  induction rows with
  | nil => rfl
  | cons row rest ih =>
      obtain ⟨key, row⟩ := row
      rw [Catalog.checkRows, List.findSome?_cons, fault?]
      cases idOfKey? key with
      | none => rfl
      | some id =>
          by_cases hid : declared row = id
          · simp only [hid, ne_eq, not_true_eq_false, if_false, if_true, ih]
            cases rest.findSome? (fault? declared) with
            | none => simp [Except.map, hid]
            | some error => rfl
          · simp [hid]

/-- The rows are in order if none of them is at fault. -/
def InOrder (rows : List (String × α)) : Prop :=
  ∀ row ∈ rows, fault? declared row = none

variable {declared} {rows : List (String × α)}

theorem Catalog.checkRows_eq_ok_iff {entries : List (UInt32 × α)} :
    Catalog.checkRows declared rows = .ok entries ↔
      InOrder declared rows ∧ entries = rows.map fun row => (declared row.2, row.2) := by
  rw [Catalog.checkRows_eq]
  cases hfault : rows.findSome? (fault? declared) with
  | none =>
      have hrows : InOrder declared rows := List.findSome?_eq_none_iff.mp hfault
      simp only [Except.ok.injEq, hrows, true_and]
      exact eq_comm
  | some error =>
      obtain ⟨row, hrow, hrow_fault⟩ := List.exists_of_findSome?_eq_some hfault
      refine iff_of_false nofun fun hboth => ?_
      simp [hboth.1 row hrow] at hrow_fault

/-- What is found is the fault of some row. -/
theorem Catalog.exists_fault_of_checkRows {error : TableError}
    (hcheck : Catalog.checkRows declared rows = .error error) :
    ∃ row ∈ rows, fault? declared row = some error := by
  rw [Catalog.checkRows_eq] at hcheck
  cases hfault : rows.findSome? (fault? declared) with
  | none => simp [hfault] at hcheck
  | some found =>
      rw [hfault] at hcheck
      cases hcheck
      exact List.exists_of_findSome?_eq_some hfault

end Rows

end Volley
