import CardScript.Json.Basic

/-!
# Decoding JSON

Building blocks for decoders. A decoder answers `none` for a tree of the wrong shape. A field that
is named twice is wrong, a field nobody asks for is ignored whatever it holds, and only an optional
field may be `null`.
-/

namespace CardScript.Json

def string? : Json → Option String
  | string s => some s
  | _ => none

def bool? : Json → Option Bool
  | bool b => some b
  | _ => none

/-- A whole number from `0` up to, and not including, `limit`. -/
def natBelow? (limit : Nat) : Json → Option Nat
  | whole n => if 0 ≤ n && n < limit then some n.toNat else none
  | _ => none

def array? : Json → Option (List Json)
  | array items => some items
  | _ => none

def fields? : Json → Option (List (String × Json))
  | object fields => some fields
  | _ => none

/-- A list of things of one type. -/
def listOf? {α : Type} (decode : Json → Option α) (j : Json) : Option (List α) :=
  j.array?.bind fun items => items.mapM decode

/-- The field of a name, if it is there at all. -/
def lookup? (fields : List (String × Json)) (name : String) : Option (Option Json) :=
  match fields.filter (·.1 == name) with
  | [] => some none
  | [field] => some (some field.2)
  | _ => none

def required? {α : Type} (fields : List (String × Json)) (name : String)
    (decode : Json → Option α) : Option α := do
  match ← lookup? fields name with
  | some j => decode j
  | none => none

def optional? {α : Type} (fields : List (String × Json)) (name : String)
    (decode : Json → Option α) : Option (Option α) := do
  match ← lookup? fields name with
  | some null => return none
  | some j => return some (← decode j)
  | none => return none

def defaulted? {α : Type} (fields : List (String × Json)) (name : String) (default : α)
    (decode : Json → Option α) : Option α := do
  match ← lookup? fields name with
  | some j => decode j
  | none => return default

/-- A tagged tree: an object with one field, or the tag alone. -/
def variant? : Json → Option (String × Json)
  | string tag => some (tag, null)
  | object [(tag, content)] => some (tag, content)
  | _ => none

/-- The content of a tag that carries nothing. -/
def unit? : Json → Option Unit
  | null => some ()
  | _ => none

/-- A tree tagged with its kind. -/
def tagged (tag : String) (content : Json) : Json :=
  object [(tag, content)]

/-- One of a few words, each standing for a thing. -/
def oneOf? {α : Type} (name : α → String) (all : List α) (j : Json) : Option α := do
  let (tag, content) ← j.variant?
  content.unit?
  all.find? fun a => name a == tag

end CardScript.Json
