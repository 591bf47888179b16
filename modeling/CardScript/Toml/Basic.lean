/-!
# TOML documents

A document is a table of entries. How a table came to be decides what may still be added to it: a
table under its own header, one that only the header of a table inside it implies, one that dotted
keys make, and an inline table, which is closed.
-/

namespace CardScript

/-- How a table came to be. -/
inductive Toml.Origin where
  | header
  | implied
  | dotted
  | inline
deriving Repr, DecidableEq, Inhabited

inductive Toml where
  | text (s : String)
  | whole (n : Int)
  | real (numeral : String)
  | bool (b : Bool)
  /-- A date, a time of day, or both. -/
  | moment (written : String)
  | array (items : List Toml)
  | table (origin : Toml.Origin) (entries : List (String × Toml))
  /-- Tables under the same doubled header, in order. -/
  | tables (rows : List (List (String × Toml)))
deriving Inhabited

namespace Toml

abbrev Entries := List (String × Toml)

/-- Changes the entry of a name, or adds one. -/
def alter (name : String) (change : Option Toml → Option Toml) : Entries → Option Entries
  | [] => do return [(name, ← change none)]
  | (key, value) :: rest =>
    if key == name then do return (key, ← change (some value)) :: rest
    else do return (key, value) :: (← alter name change rest)

/-- Changes the last of several rows. -/
def alterLast (change : Entries → Option Entries) : List Entries → Option (List Entries)
  | [] => none
  | [row] => do return [← change row]
  | row :: next :: rest => do return row :: (← alterLast change (next :: rest))

/-- Adds an entry under dotted keys. Tables on the way may be made by dotted keys or implied by a
header; the one that takes the entry has to be made by dotted keys. -/
def put (name : String) (value : Toml) : (keys : List String) → Entries → Option Entries
  | [], entries =>
    if entries.any (·.1 == name) then none else some (entries ++ [(name, value)])
  | key :: keys, entries =>
    entries |> alter key fun
      | none => (put name value keys []).map (table .dotted)
      | some (table .dotted inner) => (put name value keys inner).map (table .dotted)
      | some (table .implied inner) =>
        if keys.isEmpty then none else (put name value keys inner).map (table .implied)
      | some (tables rows) =>
        if keys.isEmpty then none else (alterLast (put name value keys) rows).map tables
      | some _ => none

/-- Changes the table at the path of a header, with implied tables on the way to it. -/
def change (f : Entries → Option Entries) : (path : List String) → Entries → Option Entries
  | [], entries => f entries
  | key :: path, entries =>
    entries |> alter key fun
      | none => (change f path []).map (table .implied)
      | some (table .inline _) => none
      | some (table origin inner) => (change f path inner).map (table origin)
      | some (tables rows) => (alterLast (change f path) rows).map tables
      | some _ => none

/-- Begins the table of a header; only an implied one may be there already. -/
def beginTable (parent : List String) (key : String) : Entries → Option Entries :=
  parent |> change (alter key fun
    | none => some (table .header [])
    | some (table .implied inner) => some (table .header inner)
    | some _ => none)

/-- Begins one more row of the tables under a doubled header. -/
def beginRow (parent : List String) (key : String) : Entries → Option Entries :=
  parent |> change (alter key fun
    | none => some (tables [[]])
    | some (tables rows) => some (tables (rows ++ [[]]))
    | some _ => none)

def find? (entries : Entries) (name : String) : Option Toml :=
  (entries.find? (·.1 == name)).map (·.2)

end Toml

end CardScript
