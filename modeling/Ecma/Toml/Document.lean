/-
TOML documents while they are read. A table remembers how it came to be, because
a header may open it only once, and a path of names may add only to tables that
paths have made.
-/
import Ecma.Toml.Basic

namespace Ecma.Toml

/-- How a table came to be. -/
inductive Origin where
  | header
  /-- On the way to a table with a header. -/
  | implied
  /-- On the way to a value, by a path of names. -/
  | path
  deriving DecidableEq, Repr

inductive Part where
  | closed (value : Toml)
  | table (origin : Origin) (entries : List (String × Part))
  /-- A list of tables, of which the last may grow. -/
  | tables (earlier : List Toml) (last : List (String × Part))

/-- The entries of a table that may grow. -/
abbrev Parts : Type := List (String × Part)

mutual

def Part.toToml : Part → Toml
  | .closed value => value
  | .table _ entries => .table (Parts.toTable entries)
  | .tables earlier last => .array (earlier ++ [.table (Parts.toTable last)])

def Parts.toTable : List (String × Part) → Table
  | [] => []
  | (name, part) :: rest => (name, part.toToml) :: Parts.toTable rest

end

namespace Parts

/-- Changes the table at a path, with the tables on the way. -/
def within? (f : Parts → Option Parts) : (path : List String) → Parts → Option Parts
  | [], entries => f entries
  | name :: path, entries =>
    match entries.lookup name with
    | none => return entries ++ [(name, .table .implied (← within? f path []))]
    | some (.table origin inner) =>
      return replace name (.table origin (← within? f path inner)) entries
    | some (.tables earlier last) =>
      return replace name (.tables earlier (← within? f path last)) entries
    | some (.closed _) => none

/-- Opens a table with a header: a new one, or one that another header implied. -/
def openTable? (name : String) (entries : Parts) : Option Parts :=
  match entries.lookup name with
  | none => some (entries ++ [(name, .table .header [])])
  | some (.table .implied inner) => some (replace name (.table .header inner) entries)
  | some _ => none

def openNext? (name : String) (entries : Parts) : Option Parts :=
  match entries.lookup name with
  | none => some (entries ++ [(name, .tables [] [])])
  | some (.tables earlier last) =>
    some (replace name (.tables (earlier ++ [.table (toTable last)]) []) entries)
  | some _ => none

/-- Gives a path of names a value. The path leads through no table with a header of
its own, and the table that it adds to was made by a path. -/
def insert? (value : Toml) : (path : List String) → Parts → Option Parts
  | [], _ => none
  | [name], entries =>
    match entries.lookup name with
    | none => some (entries ++ [(name, .closed value)])
    | some _ => none
  | name :: next :: path, entries =>
    match entries.lookup name with
    | none => return entries ++ [(name, .table .path (← insert? value (next :: path) []))]
    | some (.table .path inner) =>
      return replace name (.table .path (← insert? value (next :: path) inner)) entries
    | some (.table .implied inner) =>
      if path.isEmpty then none
      else return replace name (.table .implied (← insert? value (next :: path) inner)) entries
    | some (.tables earlier last) =>
      if path.isEmpty then none
      else return replace name (.tables earlier (← insert? value (next :: path) last)) entries
    | some (.table .header _) | some (.closed _) => none

/-- The table of paths with values. -/
def ofPairs? (pairs : List (List String × Toml)) : Option Parts :=
  pairs.foldlM (fun entries (path, value) => insert? value path entries) []

end Parts

/-- A document as far as it is read. -/
structure Document where
  entries : Parts := []
  /-- The path of the table that names belong to. -/
  opened : List String := []

namespace Document

def openTable? (document : Document) (path : List String) : Option Document := do
  let entries ← document.entries.within? (Parts.openTable? (← path.getLast?)) path.dropLast
  return { entries, opened := path }

def openNext? (document : Document) (path : List String) : Option Document := do
  let entries ← document.entries.within? (Parts.openNext? (← path.getLast?)) path.dropLast
  return { entries, opened := path }

def insert? (document : Document) (path : List String) (value : Toml) : Option Document := do
  let entries ← document.entries.within? (Parts.insert? value path) document.opened
  return { document with entries }

end Document

end Ecma.Toml
