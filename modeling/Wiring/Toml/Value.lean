import Wiring.Entries

/-!
Values of configuration text, and how its tables are filled. A table is complete once it
is written inline or under a header of its own; only what a header or a dotted key
implies may be added to later.
-/

namespace Wiring.Toml

/-- How a table came about. -/
inductive TableKind where
  /-- It is written in braces. -/
  | inline
  /-- It has a header of its own. -/
  | header
  /-- The header of a table in it implies it. -/
  | implied
  /-- A dotted key implies it. -/
  | dotted
deriving DecidableEq

inductive Value where
  | text (value : String)
  /-- A number, a truth value or a date, of which nothing more is known. -/
  | scalar
  | array (items : List Value)
  | table (kind : TableKind) (entries : List (String × Value))
  /-- The tables under repeated headers. -/
  | tables (tables : List (List (String × Value)))
deriving Inhabited

abbrev Table := Entries Value

namespace Table

/-- Changes the table under a path of keys, given how it came about. Tables on the way
are made if they are missing; `isDotted` tells whether the path is that of a dotted key.
Of repeated tables the last one is meant. -/
def modify? (isDotted : Bool) (change : TableKind → Table → Option Table) :
    List String → TableKind → Table → Option Table
  | [], kind, table => change kind table
  | key :: path, _, table =>
    match Entries.find? key table with
    | none => do
      let kind := if isDotted then TableKind.dotted else .implied
      let inner ← modify? isDotted change path kind []
      return table.put key (.table kind inner)
    | some (.table kind inner) =>
      if kind = .inline || (isDotted && kind = .header) then none
      else do
        let inner ← modify? isDotted change path kind inner
        return table.put key (.table kind inner)
    | some (.tables tables) => do
      let last ← tables.getLast?
      let last ← modify? isDotted change path .header last
      return table.put key (.tables (tables.dropLast ++ [last]))
    | some _ => none

/-- Gives a dotted key its value. A key must be new, and what stands before its last dot
must be a table that dotted keys imply. -/
def assign? (path : List String) (key : String) (value : Value) (kind : TableKind)
    (table : Table) : Option Table :=
  modify? true (fun kind table =>
    if (!path.isEmpty && kind ≠ .dotted) || table.hasKey key then none
    else some (table.put key value)) path kind table

/-- Begins the table of a header. -/
def openTable? (path : List String) (key : String) (table : Table) : Option Table :=
  modify? false (fun _ table =>
    match Entries.find? key table with
    | none => some (table.put key (.table .header []))
    | some (.table .implied inner) => some (table.put key (.table .header inner))
    | some _ => none) path .header table

/-- Begins the next table of a repeated header. -/
def openNext? (path : List String) (key : String) (table : Table) : Option Table :=
  modify? false (fun _ table =>
    match Entries.find? key table with
    | none => some (table.put key (.tables [[]]))
    | some (.tables tables) => some (table.put key (.tables (tables ++ [[]])))
    | some _ => none) path .header table

end Table

end Wiring.Toml
