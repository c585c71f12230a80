import Volley.Config.Blueprint
import Volley.Config.Level
import Volley.Text.Quoted

/-!
# Config catalogs

A catalog holds blueprints, levels and terrains by their ids. A table text is an object whose keys
are the ids of its rows; it is loaded as a whole or not at all.
-/

namespace Volley

inductive TableError where
  | invalid
  | badKey (key : String)
  | idMismatch (key declared : UInt32)
  deriving DecidableEq, Repr

namespace TableError

def message : TableError → String
  | .invalid => "invalid config json"
  | .badKey key => "table key " ++ quoted key ++ " is not a numeric id"
  | .idMismatch key declared =>
      "config id mismatch: keyed as " ++ toString key.toNat ++ ", declares " ++
        toString declared.toNat

end TableError

/-- The id that a key spells: decimal digits, leading zeros allowed, perhaps behind a plus sign. -/
def idOfKey? (key : String) : Option UInt32 :=
  let written : List Char := match key.toList with
    | '+' :: rest => rest
    | cs => cs
  let value : Nat := ofDigits (written.map fun c => c.toNat - '0'.toNat)
  if written ≠ [] ∧ written.all Char.isDigit = true ∧ value < UInt32.size then
    some (UInt32.ofNat value)
  else none

namespace Catalog

/-- Checks the rows of a table in the given order: every key spells the id that its row declares. -/
def checkRows {α : Type} (declared : α → UInt32) :
    List (String × α) → Except TableError (List (UInt32 × α))
  | [] => .ok []
  | (key, row) :: rest =>
      match idOfKey? key with
      | none => .error (.badKey key)
      | some id =>
          if declared row ≠ id then .error (.idMismatch id (declared row))
          else (checkRows declared rest).map ((id, row) :: ·)

/-- The rows of a table text. A text that cannot be decoded is refused before
any key is looked at. -/
def readTable {α : Type} [Stored α] (declared : α → UInt32) (text : String) :
    Except TableError (List (UInt32 × α)) :=
  match (Json.read? text).bind (Decoder.table Stored.decode .ofText) with
  | none => .error .invalid
  | some rows => checkRows declared rows

end Catalog

structure Catalog where
  blueprints : Table UInt32 Blueprint
  levels : Table UInt32 Level
  terrains : Table UInt32 Terrain

namespace Catalog

def empty : Catalog :=
  { blueprints := .empty, levels := .empty, terrains := .empty }

def insertBlueprint (catalog : Catalog) (blueprint : Blueprint) : Catalog :=
  { catalog with blueprints := catalog.blueprints.insert blueprint.id blueprint }

def insertLevel (catalog : Catalog) (level : Level) : Catalog :=
  { catalog with levels := catalog.levels.insert level.id level }

def insertTerrain (catalog : Catalog) (terrain : Terrain) : Catalog :=
  { catalog with terrains := catalog.terrains.insert terrain.id terrain }

def loadBlueprints (catalog : Catalog) (text : String) : Except TableError (Nat × Catalog) :=
  (readTable Blueprint.id text).map fun rows =>
    (rows.length, { catalog with blueprints := catalog.blueprints.insertAll rows })

def loadLevels (catalog : Catalog) (text : String) : Except TableError (Nat × Catalog) :=
  (readTable Level.id text).map fun rows =>
    (rows.length, { catalog with levels := catalog.levels.insertAll rows })

def loadTerrains (catalog : Catalog) (text : String) : Except TableError (Nat × Catalog) :=
  (readTable Terrain.id text).map fun rows =>
    (rows.length, { catalog with terrains := catalog.terrains.insertAll rows })

end Catalog

end Volley
