/-
The trees of TOML documents, and how one table is laid over another.
-/
namespace Ecma

inductive Toml where
  | integer (value : Int)
  | float (value : Float)
  | boolean (value : Bool)
  | string (value : String)
  /-- A date, a time or both, as it is written. -/
  | moment (text : String)
  | array (items : List Toml)
  | table (entries : List (String × Toml))
  deriving Inhabited

namespace Toml

abbrev Table : Type := List (String × Toml)

/-- Replaces the value of a name, or adds it at the end. -/
def replace {α : Type} (name : String) (value : α) : List (String × α) → List (String × α)
  | [] => [(name, value)]
  | (first, old) :: rest =>
    if first = name then (name, value) :: rest else (first, old) :: replace name value rest

/-! ## One table over another -/

/-- The entries of a table with those of another in their place. -/
def extend (entries upper : Table) : Table :=
  upper.foldl (fun entries (name, value) => replace name value entries) entries

/-- Lays an entry over a table: of two tables the entries are joined, anything else
takes the place of what was there. -/
def layOver (entries : Table) : String × Toml → Table
  | (name, .table upper) =>
    match entries.lookup name with
    | some (.table inner) => replace name (.table (extend inner upper)) entries
    | _ => replace name (.table upper) entries
  | (name, value) => replace name value entries

def overlay (entries upper : Table) : Table := upper.foldl layOver entries

end Toml

end Ecma
