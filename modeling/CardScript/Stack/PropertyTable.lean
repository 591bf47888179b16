import CardScript.Symbol
import CardScript.Value.Basic

/-!
# Property tables

The properties of a part by lower-cased name. A table never takes up a name on its own: reading or
setting an unknown one fails.
-/

namespace CardScript

structure PropertyTable where
  entries : List (String × Value) := []
  readOnly : List String := []
deriving Inhabited

namespace PropertyTable

/-- Replaces the value of a key, or adds the key at the end. -/
def put (key : String) (value : Value) : List (String × Value) → List (String × Value)
  | [] => [(key, value)]
  | (k, v) :: rest => if k == key then (k, value) :: rest else (k, v) :: put key value rest

/-- Gives a table a property. -/
def define (t : PropertyTable) (name : String) (value : Value) : PropertyTable :=
  { t with entries := put (Text.lowerString name) value t.entries }

/-- Gives a table a property that scripts cannot set. -/
def defineReadOnly (t : PropertyTable) (name : String) (value : Value) : PropertyTable :=
  let t := t.define name value
  { t with readOnly := Text.lowerString name :: t.readOnly }

def find? (t : PropertyTable) (key : String) : Option Value :=
  (t.entries.find? (·.1 == key)).map (·.2)

def get (t : PropertyTable) (name : String) : Except Failure Value :=
  match t.find? (Text.lowerString name) with
  | some v => .ok v
  | none => .error (.noSuchProperty name)

/-- A script can set a property that is there, unless it is read-only. -/
def checkSet (t : PropertyTable) (name : String) : Except Failure Unit :=
  let key := Text.lowerString name
  if t.readOnly.contains key then .error (.semantic (.cannotSet name))
  else
    match t.find? key with
    | some _ => .ok ()
    | none => .error (.noSuchProperty name)

/-- The table when a script has set a property. -/
def set (t : PropertyTable) (name : String) (value : Value) : Except Failure PropertyTable := do
  t.checkSet name
  return t.define name value

/-- The text of a property, empty if there is none. -/
def textOf (t : PropertyTable) (key : String) : String :=
  ((t.find? key).map (·.text)).getD ""

/-- A property read as a truth value; what does not read as one is false. -/
def flag (t : PropertyTable) (key : String) : Bool :=
  ((t.find? key).bind Value.boolean?).getD false

end PropertyTable

end CardScript
