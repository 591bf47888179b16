import CardScript.Chunk.Basic
import CardScript.Part.Basic

/-!
# Addresses of parts

A specifier says which part is meant. It is an address whose expressions have been evaluated, or a
part that is known already.
-/

namespace CardScript

/-- A component of a stack. -/
inductive PartRef where
  | stack
  | background (id : Nat)
  | card (id : Nat)
  | part (kind : PartKind) (layer : Layer) (id : Nat)
deriving Repr, DecidableEq, Inhabited

namespace PartRef

def type : PartRef → PartType
  | stack => .stack
  | background _ => .background
  | card _ => .card
  | part kind _ _ => kind.type

def id? : PartRef → Option Nat
  | stack => none
  | background id | card id | part _ _ id => some id

/-- The words for the kind of component. -/
def words : PartRef → String
  | stack => "stack"
  | background _ => "bkgnd"
  | card _ => "card"
  | part kind layer _ => s!"{layer.word} {kind.name}"

/-- The component by its identifier. -/
def idForm (r : PartRef) : String :=
  match r.id? with
  | some id => s!"{r.words} id {id}"
  | none => "this stack"

end PartRef

/-- A component and the card it was reached through. A background and what lies on it are shared
by cards, so what they hold depends on that card. -/
structure Found where
  part : PartRef
  card : Option Nat := none
deriving Repr, DecidableEq, Inhabited

def Found.ofCard (id : Nat) : Found :=
  ⟨.card id, some id⟩

/-- The component as shown to someone looking for an error. -/
def Found.inspect (f : Found) : String :=
  match f.card with
  | some card => s!"PartHandle({f.part.idForm} via card id {card})"
  | none => s!"PartHandle({f.part.idForm})"

/-- A component of one of the open stacks. -/
structure Handle where
  stack : Nat
  found : Found
deriving Repr, DecidableEq, Inhabited

namespace Handle

def ofStack (stack : Nat) : Handle :=
  ⟨stack, ⟨.stack, none⟩⟩

def ofCard (stack card : Nat) : Handle :=
  ⟨stack, .ofCard card⟩

/-- The same component, whatever card it was reached through. -/
def samePart (h k : Handle) : Bool :=
  h.stack == k.stack && h.found.part == k.found.part

/-- Buttons and fields hold a text. -/
def holdsText (h : Handle) : Bool :=
  match h.found.part with
  | .part .. => true
  | _ => false

end Handle

inductive Specifier where
  | id (layer : Option Layer) (type : PartType) (id : Nat)
  /-- A literal name came in quotes and never stands for a number. -/
  | name (layer : Option Layer) (type : PartType) (name : String) (literal : Bool)
  | number (layer : Option Layer) (type : PartType) (number : Int)
  | ordinal (layer : Option Layer) (type : PartType) (word : Ordinal)
  | position (type : PartType) (position : Position)
  /-- Without a name, the current stack. -/
  | stack (name : Option String)
  | of (part owner : Specifier)
  | resolved (handle : Handle)
deriving Repr, DecidableEq, Inhabited

namespace Specifier

def type : Specifier → PartType
  | id _ t _ | name _ t _ _ | number _ t _ | ordinal _ t _ | position t _ => t
  | stack _ => .stack
  | of part _ => part.type
  | resolved h => h.found.part.type

def explicitLayer? : Specifier → Option Layer
  | id layer _ _ | name layer _ _ _ | number layer _ _ | ordinal layer _ _ => layer
  | _ => none

def layer (s : Specifier) : Layer :=
  s.explicitLayer?.getD s.type.usualLayer

def isStack : Specifier → Bool
  | stack _ => true
  | _ => false

/-- The number of draws an address needs. -/
def draws : Specifier → Nat
  | ordinal _ _ .any => 1
  | of part owner => owner.draws + part.draws
  | _ => 0

def layerWord : Option Layer → String
  | some layer => layer.word ++ " "
  | none => ""

/-- The address as a script would write it; `describe` tells how a known part is called. -/
def text (describe : Handle → String) : Specifier → String
  | id layer t n => s!"{layerWord layer}{t.name} id {n}"
  | name layer t s _ => s!"{layerWord layer}{t.name} \"{s}\""
  | number layer t n => s!"{layerWord layer}{t.name} {n}"
  | ordinal layer t word => s!"{word.name} {layerWord layer}{t.name}"
  | position t p => s!"{p.name} {t.name}"
  | stack (some s) => s!"stack \"{s}\""
  | stack none => "this stack"
  | of part owner => s!"{part.text describe} of {owner.text describe}"
  | resolved h => describe h

end Specifier

end CardScript
