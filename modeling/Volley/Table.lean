/-!
# Ordered tables

A table holds one value per key and lists its entries in the order of the keys.
-/

namespace Volley

structure Table (κ : Type) (α : Type) where
  entries : List (κ × α)
  deriving Repr

namespace Table

variable {κ α : Type}

def empty : Table κ α :=
  { entries := [] }

def keys (table : Table κ α) : List κ :=
  table.entries.map Prod.fst

def size (table : Table κ α) : Nat :=
  table.entries.length

def find? [DecidableEq κ] (table : Table κ α) (key : κ) : Option α :=
  (table.entries.find? fun entry => entry.1 = key).map Prod.snd

def contains [DecidableEq κ] (table : Table κ α) (key : κ) : Bool :=
  (table.find? key).isSome

def place [DecidableEq κ] [LT κ] [DecidableLT κ] (key : κ) (value : α) : List (κ × α) → List (κ × α)
  | [] => [(key, value)]
  | entry :: rest =>
      if key < entry.1 then (key, value) :: entry :: rest
      else if key = entry.1 then (key, value) :: rest
      else entry :: place key value rest

/-- Sets the value of a key; the entries stay in order. -/
def insert [DecidableEq κ] [LT κ] [DecidableLT κ] (table : Table κ α) (key : κ)
    (value : α) : Table κ α :=
  { entries := place key value table.entries }

def erase [DecidableEq κ] (table : Table κ α) (key : κ) : Table κ α :=
  { entries := table.entries.filter fun entry => entry.1 ≠ key }

/-- Enters the pairs one after the other, so the last pair of a key counts. -/
def insertAll [DecidableEq κ] [LT κ] [DecidableLT κ] (table : Table κ α)
    (pairs : List (κ × α)) : Table κ α :=
  pairs.foldl (fun table pair => table.insert pair.1 pair.2) table

def ofList [DecidableEq κ] [LT κ] [DecidableLT κ] (pairs : List (κ × α)) : Table κ α :=
  empty.insertAll pairs

end Table

end Volley
