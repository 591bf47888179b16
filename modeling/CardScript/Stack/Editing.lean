import CardScript.Editing
import CardScript.Stack.Basic

/-!
# Changing a stack

Adding, removing and showing cards. A background that no card uses any more goes with its last
card, and a stack always keeps a card.
-/

namespace CardScript.Stack

/-- Puts a card after the current one and makes it current. -/
def insertAfterCurrent (s : Stack) (card : Card) : Stack :=
  let index := match s.cardIndex? s.currentCard with
    | some i => i + 1
    | none => s.cards.length
  { s with cards := s.cards.insertIdx index card, currentCard := card.id }

/-- The card shown. -/
def shown (s : Stack) : Except Failure Card :=
  (s.card? s.currentCard).elim (.error (.internal .strayCurrentCard)) .ok

/-- Gives out an identifier. -/
def allocating : Editing Stack PartId :=
  modifyGet fun s => (s.nextId, { s with nextId := s.nextId + 1 })

/-- Makes a card on the background of the current one. -/
def addingCard : Editing Stack PartId := do
  let current ← Editing.demand shown
  let id ← allocating
  modify (·.insertAfterCurrent (.blank id current.background "" {}))
  return id

/-- The new card and the stack with it. -/
def newCard (s : Stack) : Except Failure (PartId × Stack) :=
  addingCard.outcome s

/-- A new background with one card. -/
def newBackground (s : Stack) : PartId × Stack :=
  let background := s.nextId
  let id := background + 1
  let s := { s with
    nextId := id + 1
    backgrounds := s.backgrounds ++ [Background.blank background "" {}] }
  (id, s.insertAfterCurrent (.blank id background "" {}))

/-- A card that can be removed and its place: the last card of a stack has to stay. -/
def removable (s : Stack) (id : PartId) : Except Failure (Nat × Card) :=
  match s.cardIndex? id, s.card? id with
  | some index, some card =>
    if s.cards.length == 1 then .error (.semantic .lastCard) else .ok (index, card)
  | _, _ => .error (.noSuchPart s!"card id {id}")

/-- The stack without a background, if no card lies on it any more. -/
def dropUnused (s : Stack) (background : PartId) : Stack :=
  if s.cards.all (·.background != background) then
    { s with backgrounds := s.backgrounds.filter (·.id != background) }
  else s

/-- The stack with the card at an index current, or else the last one, if a card that is gone was
current. -/
def replaceCurrent (s : Stack) (gone : PartId) (index : Nat) : Stack :=
  if s.currentCard == gone then
    { s with
      currentCard := (s.cards[min index (s.cards.length - 1)]?.map (·.id)).getD s.currentCard }
  else s

/-- Removes a card. If it was the current one, the card that follows becomes current, or else the
last one. -/
def removingCard (id : PartId) : Editing Stack Unit := do
  let (index, removed) ← Editing.demand (·.removable id)
  modify fun s => { s with cards := s.cards.eraseIdx index }
  modify (·.dropUnused removed.background)
  modify (·.replaceCurrent id index)

/-- The stack without a card. -/
def deleteCard (s : Stack) (id : PartId) : Except Failure Stack :=
  (removingCard id).result s

/-- Makes a card current. -/
def showingCard (id : PartId) : Editing Stack Unit := do
  let card ← Editing.demand fun s =>
    (s.card? id).elim (.error (.noSuchPart s!"card id {id}")) .ok
  modify ({ · with currentCard := card.id })

/-- The stack with a card current. -/
def showCard (s : Stack) (id : PartId) : Except Failure Stack :=
  (showingCard id).result s

end CardScript.Stack
