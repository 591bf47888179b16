/-!
# JSON trees

Documents are exchanged as JSON. An object keeps its fields in the order they are written, repeated
names included; `settle` keeps the last of them. A text may hold values that no tree can carry; they
do no harm as long as nobody asks for them.
-/

namespace CardScript

inductive Json where
  | null
  | bool (b : Bool)
  | whole (n : Int)
  /-- A number that is not written as a whole one, or is too large for a word. -/
  | decimal (numeral : String)
  | string (s : String)
  | array (items : List Json)
  | object (fields : List (String × Json))
  /-- A value that is well written but cannot be carried: a number with no finite reading, a text
  with half of a surrogate pair in it, an object with such a name, or a value nested too deep. -/
  | unrepresentable
deriving Inhabited

namespace Json

def ofNat (n : Nat) : Json :=
  whole n

def ofOption {α : Type} (encode : α → Json) : Option α → Json
  | none => null
  | some a => encode a

def ofText? : Option String → Json
  | some s => string s
  | none => unrepresentable

def ofFields? : Option (List (String × Json)) → Json
  | some fields => object fields
  | none => unrepresentable

/-- Adds a field unless the name occurs among the later ones. -/
def keepLast (name : String) (value : Json) (later : List (String × Json)) :
    List (String × Json) :=
  if later.any (·.1 == name) then later else (name, value) :: later

mutual

/-- Of fields with the same name, only the last one. -/
def settle : Json → Json
  | array items => array (settleItems items)
  | object fields => object (settleFields fields)
  | j => j

def settleItems : List Json → List Json
  | [] => []
  | j :: rest => settle j :: settleItems rest

def settleFields : List (String × Json) → List (String × Json)
  | [] => []
  | (name, j) :: rest => keepLast name (settle j) (settleFields rest)

end

mutual

/-- The number of arrays and objects around the innermost part, plus one. -/
def depth : Json → Nat
  | array items => depthItems items + 1
  | object fields => depthFields fields + 1
  | _ => 1

def depthItems : List Json → Nat
  | [] => 0
  | j :: rest => max (depth j) (depthItems rest)

def depthFields : List (String × Json) → Nat
  | [] => 0
  | (_, j) :: rest => max (depth j) (depthFields rest)

end

mutual

/-- Every part of the tree can be carried. -/
def isRepresentable : Json → Bool
  | array items => areRepresentable items
  | object fields => haveRepresentable fields
  | unrepresentable => false
  | _ => true

def areRepresentable : List Json → Bool
  | [] => true
  | j :: rest => isRepresentable j && areRepresentable rest

def haveRepresentable : List (String × Json) → Bool
  | [] => true
  | (_, j) :: rest => isRepresentable j && haveRepresentable rest

end

end Json

end CardScript
