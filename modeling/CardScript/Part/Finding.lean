import CardScript.Draws
import CardScript.Part.Specifier
import CardScript.Stack.Basic

/-!
# Finding parts

Resolving an address in a stack. An address is looked up in a scope: the whole stack seen from its
current card, one card, or one background. `part of owner` finds the owner first and then looks in
the scope that the owner is.
-/

namespace CardScript

/-- The number of an ordinal word among `count` things. -/
def Ordinal.number (draws : Draws) (count : Nat) : Ordinal → Int
  | .last => count
  | .middle => (count / 2 + 1 : Nat)
  | .any => draws.pick count

namespace Finding

/-- The `n`-th of a list, from one. -/
def nth? {α : Type} (items : List α) (n : Int) : Option α :=
  if 1 ≤ n then items[(n - 1).toNat]? else none

/-- The item of a name in any ASCII letter case. Nameless items have no name to go by. -/
def named? {α : Type} (items : List α) (nameOf : α → String) (name : String) : Option α :=
  items.find? fun item =>
    !(nameOf item).isEmpty && Text.sameIgnoringAsciiCase (nameOf item) name

/-- Picks from a list by identifier, name, number or ordinal. A name in no quotes that nothing
bears is taken as a number if it reads as one. -/
def select? {α : Type} (draws : Draws) (items : List α) (idOf : α → PartId)
    (nameOf : α → String) : Specifier → Option α
  | .id _ _ id => items.find? (idOf · == id)
  | .name _ _ name literal =>
    match named? items nameOf name with
    | some item => some item
    | none =>
      if literal then none
      else (Number.readWord? (Text.trim name.toList)).bind (nth? items)
  | .number _ _ n => nth? items n
  | .ordinal _ _ word => nth? items (word.number draws items.length)
  | _ => none

end Finding

/-- Where an address is looked up. -/
inductive Scope where
  | stack (current : PartId)
  | card (card : Card)
  | background (background : Background) (context : Option PartId)

namespace Scope

open Finding

/-- The card from which the stack is seen. -/
def current (s : Stack) : Scope → PartId
  | stack current => current
  | card c => c.id
  | background _ context => context.getD s.currentCard

/-- The card a background is seen through: the current one if it lies there, else the first. -/
def contextFor (s : Stack) (current background : PartId) : Option PartId :=
  match s.card? current with
  | some c =>
    if c.background == background then some c.id
    else ((s.cardsOf background).head?).map (·.id)
  | none => ((s.cardsOf background).head?).map (·.id)

/-- The index of the current card. -/
def currentIndex (s : Stack) (current : PartId) : Except Failure Nat :=
  match s.cardIndex? current with
  | some i => .ok i
  | none => .error (.noSuchPart s!"card id {current}")

/-- The card at a relative position. -/
def relativeCard? (s : Stack) (index : Nat) : Position → Option Card
  | .this => s.cards[index]?
  | .next => s.cards[index + 1]?
  | .prev => if index == 0 then none else s.cards[index - 1]?

/-- The nearest card in a direction that lies on another background. -/
def relativeBackground? (s : Stack) (index : Nat) (here : PartId) : Position → Option Card
  | .this => s.cards[index]?
  | .next => (s.cards.drop index).find? (·.background != here)
  | .prev => (s.cards.take (index + 1)).reverse.find? (·.background != here)

def findCard (s : Stack) (draws : Draws) (current : PartId) (missing : Failure)
    (spec : Specifier) : Except Failure Found := do
  let card? ← match spec with
    | .position _ p => do pure (relativeCard? s (← currentIndex s current) p)
    | _ => pure (select? draws s.cards (·.id) (·.name) spec)
  match card? with
  | some c => return .ofCard c.id
  | none => throw missing

def findBackground (s : Stack) (draws : Draws) (current : PartId) (missing : Failure)
    (spec : Specifier) : Except Failure Found :=
  match spec with
  | .position _ p => do
    let index ← currentIndex s current
    let here := (s.cards[index]?.map (·.background)).getD 0
    match relativeBackground? s index here p with
    | some c => return ⟨.background c.background, some c.id⟩
    | none => throw missing
  | _ =>
    match select? draws s.backgroundsInOrder (·.id) (·.name) spec with
    | some b => .ok ⟨.background b.id, contextFor s current b.id⟩
    | none => .error missing

/-- A button or field among the parts of an owner. -/
def findPart (draws : Draws) (parts : List Part) (kind : PartKind) (layer : Layer)
    (context : Option PartId) (missing : Failure) (spec : Specifier) : Except Failure Found :=
  match select? draws (parts.filter (·.kind == kind)) (·.id) (·.name) spec with
  | some p => .ok ⟨.part kind layer p.id, context⟩
  | none => .error missing

/-- A simple address on a background: one of its cards, buttons or fields. -/
def findOnBackground (s : Stack) (draws : Draws) (b : Background) (context : Option PartId)
    (missing : Failure) (spec : Specifier) : Except Failure Found :=
  match spec.type, spec.type.kind? with
  | .card, _ =>
    match select? draws (s.cardsOf b.id) (·.id) (·.name) spec with
    | some c => .ok (.ofCard c.id)
    | none => .error missing
  | _, some kind =>
    if spec.explicitLayer? == some .card then .error missing
    else findPart draws b.parts kind .background context missing spec
  | _, none => .error missing

/-- A simple address on a card: a button or field of its own or of its background, or the
background itself. -/
def findOnCard (s : Stack) (draws : Draws) (c : Card) (missing : Failure) (spec : Specifier) :
    Except Failure Found :=
  match spec.type.kind? with
  | none =>
    match spec with
    | .position .background .this => .ok ⟨.background c.background, some c.id⟩
    | _ => .error missing
  | some kind =>
    match spec.layer with
    | .card => findPart draws c.parts kind .card (some c.id) missing spec
    | .background =>
      match s.background? c.background with
      | some b => findOnBackground s draws b (some c.id) missing spec
      | none => .error missing

/-- A simple address in a whole stack. -/
def findInStack (s : Stack) (draws : Draws) (current : PartId) (missing : Failure)
    (spec : Specifier) : Except Failure Found :=
  match spec.type with
  | .stack => .ok ⟨.stack, none⟩
  | .card => findCard s draws current missing spec
  | .background => findBackground s draws current missing spec
  | .button | .field => do
    let index ← currentIndex s current
    match s.cards[index]? with
    | some c => findOnCard s draws c missing spec
    | none => throw missing

/-- The scope that a found owner is. -/
def ofOwner (s : Stack) (current : PartId) (owner : Found) (missing : Failure) :
    Except Failure Scope :=
  match owner.part with
  | .stack => .ok (stack current)
  | .card id =>
    match s.card? id with
    | some c => .ok (card c)
    | none => .error missing
  | .background id =>
    match s.background? id with
    | some b => .ok (background b (owner.card.or (contextFor s current id)))
    | none => .error missing
  | .part .. => .error missing

/-- Resolves an address. A failure names the part of the address that could not be found;
`describe` tells how a known part is called there. -/
def find (s : Stack) (describe : Handle → String) (draws : Draws) (scope : Scope) :
    Specifier → Except Failure Found
  | .of part owner => do
    let current := scope.current s
    let found ← find s describe draws (stack current) owner
    let inner ← ofOwner s current found (.noSuchPart (part.text describe))
    find s describe (draws.skip owner.draws) inner part
  | .resolved h => .ok h.found
  | .stack _ => .ok ⟨.stack, none⟩
  | spec =>
    let missing := Failure.noSuchPart (spec.text describe)
    match scope with
    | stack current => findInStack s draws current missing spec
    | card c => findOnCard s draws c missing spec
    | background b context => findOnBackground s draws b context missing spec

end Scope

end CardScript
