import CardScript.Symbol
import CardScript.Value.Basic

/-!
# Global variables

One table for all scripts. A name keeps the spelling it was first used with.
-/

namespace CardScript

structure Globals where
  entries : List (Symbol × Value) := []
deriving Inhabited

namespace Globals

/-- Replaces the value of a name, or adds the name at the end. -/
def put (name : Symbol) (value : Value) : List (Symbol × Value) → List (Symbol × Value)
  | [] => [(name, value)]
  | (s, v) :: rest => if s.sameAs name then (s, value) :: rest else (s, v) :: put name value rest

def get? (g : Globals) (name : Symbol) : Option Value :=
  (g.entries.find? (·.1.sameAs name)).map (·.2)

def set (g : Globals) (name : Symbol) (value : Value) : Globals :=
  ⟨put name value g.entries⟩

/-- Makes sure a name is there, empty if it is new. -/
def seed (g : Globals) (name : Symbol) : Globals :=
  if (g.get? name).isSome then g else g.set name .empty

/-- All names and values, sorted by lower-cased name. -/
def listing (g : Globals) : List (String × Value) :=
  (g.entries.mergeSort fun a b => a.1.key ≤ b.1.key).map fun (s, v) => (s.spelling, v)

end Globals

end CardScript
