import CardScript.Proofs.Script.Staying

/-!
# Moves

Going, and making and removing cards, each consist of messages to the cards concerned and of one
move between them (`land`, `stepBack`, `addCard`, `dropCard`). The moves run no scripts, so they
come to an end, and what holds of all scripts goes on to hold (`Action.Moves`).
-/

namespace CardScript

variable {α β : Type}

/-! ## What moves are made of -/

/-- Shows a card that one goes to. -/
def land (destination : Destination) (announce : Bool) : Action Unit := do
  if announce then Action.navigate destination
  editStack destination.stack (Stack.showingCard destination.card)
  Action.changeContext fun c =>
    { c with stack := some destination.stack, card := none, result := .empty }

/-- Tells the desktop to go back. -/
def stepBack : Action (Option Destination) := do
  let (previous, desktop) ← Action.ask fun m => m.world.desktop.goBack
  Action.changeWorld fun w => { w with desktop }
  return previous

/-- Goes to a card that was just made. -/
def settle (stack : Nat) (card : PartId) : Action Unit := do
  Action.changeContext fun c => { c with card := none }
  let effect ← Action.takeEffect
  Action.navigate { stack, card, effect }

def insertCard (stack : Nat) : Action PartId :=
  editStack stack Stack.addingCard

def insertBackground (stack : Nat) : Action PartId := do
  let (card, s) ← Action.ask fun m => (m.world.stack stack).newBackground
  Action.changeWorld fun w => w.withStack stack s
  return card

/-- Makes a card in the current stack and goes there. -/
def addCard (insert : Nat → Action PartId) : Action (Nat × PartId) := do
  let stack ← Action.demand (·.currentStack)
  let card ← insert stack
  settle stack card
  return (stack, card)

/-- Removes a card of a stack, and goes to the card that takes its place if it was shown. -/
def dropCard (stack : Nat) (id : PartId) : Action Unit := do
  let wasCurrent ← Action.ask fun m => (m.world.stack stack).currentCard == id
  editStack stack (Stack.removingCard id)
  Action.changeContext fun c => { c with card := none }
  if wasCurrent then
    let effect ← Action.takeEffect
    let card ← Action.ask fun m => (m.world.stack stack).currentCard
    Action.navigate { stack, card, effect }

theorem arrive_eq (invoke : Invoke) (destination : Destination) (announce : Bool) :
    arrive invoke destination announce = do
      if ← leaveCard invoke then
        land destination announce
        return (← notify invoke (.ofCard destination.stack destination.card)
          "openCard").afterMessage
      else return .exitToHyperCard := by
  unfold arrive land
  cases announce <;> simp only [bind_assoc, if_true, Bool.false_eq_true, if_false]

theorem goBack_eq (invoke : Invoke) :
    goBack invoke = do
      match ← stepBack with
      | some destination => arrive invoke destination false
      | none =>
        Action.setResult .empty
        return .normal := rfl

theorem makeCard_eq (invoke : Invoke) :
    makeCard invoke = do
      let (stack, card) ← addCard insertCard
      return (← notify invoke (.ofCard stack card) "newCard").afterMessage := by
  unfold makeCard addCard insertCard welcome settle
  simp only [bind_assoc, pure_bind]

theorem makeBackground_eq (invoke : Invoke) :
    makeBackground invoke = do
      let (stack, card) ← addCard insertBackground
      return (← notify invoke (.ofCard stack card) "newBackground").afterMessage := by
  unfold makeBackground addCard insertBackground welcome settle
  simp only [bind_assoc, pure_bind]

theorem removeCard_eq (invoke : Invoke) {h : Handle} {id : PartId}
    (hpart : h.found.part = .card id) :
    removeCard invoke h = do
      if (← notify invoke h "deleteCard").isExitToHyperCard then return .exitToHyperCard
      else
        dropCard h.stack id
        return .normal := by
  unfold removeCard dropCard
  rw [hpart]
  refine bind_congr fun flow => ?_
  split
  · rfl
  · simp only [bind_assoc]
    refine bind_congr fun wasCurrent => ?_
    cases wasCurrent <;> rfl

/-! ## Moves come to an end -/

/-- From one machine to another by moves. -/
structure Machine.Moves (m m' : Machine) : Prop where
  depth : m'.depth = m.depth
  settings : m'.world.settings = m.world.settings
  leads : ∀ n, (m.world.stack n).Leads (m'.world.stack n)

namespace Machine

variable {m m' m'' : Machine}

theorem Stays.moves (h : m.Stays m') : m.Moves m' := ⟨h.depth, h.settings, h.leads⟩

theorem Moves.trans (h : m.Moves m') (h' : m'.Moves m'') : m.Moves m'' where
  depth := h'.depth.trans h.depth
  settings := h'.settings.trans h.settings
  leads n := (h.leads n).trans (h'.leads n)

theorem Moves.change {w : World} (h : World.Change m.world w) : m.Moves (m.withWorld w) :=
  ⟨rfl, h.settings_eq, h.leads⟩

end Machine

namespace Action

/-- An action that comes to an end and has at most moved. -/
abbrev Moves (x : Action α) : Prop := x.EndsIn Machine.Moves

theorem Stays.moves {x : Action α} (h : x.Stays) : x.Moves :=
  ⟨h.ends, fun m => (h.keeps m).moves⟩

namespace Moves

theorem bind {x : Action α} {f : α → Action β} (hx : x.Moves) (hf : ∀ a, (f a).Moves) :
    (x >>= f).Moves :=
  EndsIn.bind Machine.Moves.trans hx hf

theorem changeContext {f : Context → Context} (h : ∀ c, (f c).frames = c.frames) :
    Moves (Action.changeContext f) :=
  EndsIn.of_ok fun m =>
    ⟨(), _, rfl, congrArg CallStack.depth (h m.context), rfl, fun _ => .refl⟩

theorem navigate (destination : Destination) : Moves (Action.navigate destination) :=
  EndsIn.of_ok fun _ => ⟨(), _, rfl, .change (.navigate destination)⟩

theorem editStack {x : Editing Stack Unit} (hx : x.Atomic)
    (h : ∀ w s, x.result (World.stack w number) = .ok s → World.Change w (w.withStack number s)) :
    Moves (CardScript.editStack number x) := by
  rw [editStack_eq_changeStack hx]
  refine EndsIn.change (fun _ => Machine.Stays.refl.moves) fun m m' hm => ?_
  obtain ⟨s, hs, hm⟩ := Failure.bind_eq_ok.1 hm
  cases hm
  exact .change (h m.world s hs)

end Moves

end Action

/-- A card that is gone is noticed only once the desktop has been told. -/
theorem land_apply (destination : Destination) (announce : Bool) (m : Machine) :
    land destination announce m =
      let desktop := if announce then m.world.desktop.navigate destination else m.world.desktop
      match (m.world.stack destination.stack).showCard destination.card with
      | .ok s =>
        .ok ()
          { world := { m.world.withStack destination.stack s with desktop }
            context := { m.context with
              stack := some destination.stack, card := none, result := .empty } }
      | .error f => .error (.failed { failure := f }) (m.withWorld { m.world with desktop }) := by
  have hland (m : Machine) :
      (editStack destination.stack (Stack.showingCard destination.card) >>= fun _ =>
        Action.changeContext fun c =>
          { c with stack := some destination.stack, card := none, result := .empty }) m =
        match (m.world.stack destination.stack).showCard destination.card with
        | .ok s =>
          .ok ()
            { world := m.world.withStack destination.stack s
              context := { m.context with
                stack := some destination.stack, card := none, result := .empty } }
        | .error f => .error (.failed { failure := f }) m := by
    have hshow := editStack_apply_unit (Stack.showingCard_atomic destination.card)
      destination.stack m
    rw [← Stack.showCard] at hshow
    cases hcard : (m.world.stack destination.stack).showCard destination.card with
    | ok s =>
      rw [hcard] at hshow
      exact Action.bind_apply_ok hshow
    | error f =>
      rw [hcard] at hshow
      exact Action.bind_apply_error hshow
  cases announce with
  | true =>
    exact hland (m.withWorld { m.world with desktop := m.world.desktop.navigate destination })
  | false => exact hland m

theorem land_moves : (land destination announce).Moves := by
  have hshow : Action.Moves (do
      editStack destination.stack (Stack.showingCard destination.card)
      Action.changeContext fun c =>
        { c with stack := some destination.stack, card := none, result := .empty }) :=
    .bind (.editStack (Stack.showingCard_atomic _) fun _ _ h => .showCard h) fun _ =>
      .changeContext fun _ => rfl
  cases announce with
  | true => exact .bind (.navigate _) fun _ => hshow
  | false => exact hshow

theorem stepBack_moves : stepBack.Moves :=
  .of_ok fun _ => ⟨_, _, rfl, .change .goBack⟩

theorem settle_moves : (settle stack card).Moves :=
  .bind (.changeContext fun _ => rfl) fun _ => .bind Action.Stays.takeEffect.moves fun _ =>
    .navigate _

theorem insertCard_apply (stack : Nat) (m : Machine) :
    insertCard stack m =
      match (m.world.stack stack).newCard with
      | .ok (card, s) => .ok card (m.withWorld (m.world.withStack stack s))
      | .error f => .error (.failed { failure := f }) m := by
  rw [insertCard, editStack_apply Stack.addingCard_atomic, Stack.newCard]
  cases Stack.addingCard.outcome (m.world.stack stack) with
  | ok | error => rfl

theorem insertCard_moves : (insertCard stack).Moves := by
  refine ⟨fun m m' hm => ?_, fun m => ?_⟩
  · rw [insertCard_apply] at hm
    split at hm <;> cases hm
  · simp only [Action.after, insertCard_apply]
    cases hnew : (m.world.stack stack).newCard with
    | ok made => exact .change (.newCard hnew)
    | error f => exact Machine.Stays.refl.moves

theorem insertBackground_moves : (insertBackground stack).Moves :=
  .of_ok fun _ => ⟨_, _, rfl, .change .newBackground⟩

theorem addCard_moves {insert : Nat → Action PartId} (hinsert : ∀ stack, (insert stack).Moves) :
    (addCard insert).Moves :=
  .bind (Action.Stays.demand _).moves fun stack => .bind (hinsert stack) fun _ =>
    .bind settle_moves fun _ => (Action.Stays.pure _).moves

theorem dropCard_moves {id : PartId} : (dropCard stack id).Moves := by
  refine .bind (Action.Stays.ask _).moves fun wasCurrent =>
    .bind (.editStack (Stack.removingCard_atomic id) fun _ _ h => .deleteCard h) fun _ =>
      .bind (.changeContext fun _ => rfl) fun _ => ?_
  cases wasCurrent with
  | true =>
    exact .bind Action.Stays.takeEffect.moves fun _ => .bind (Action.Stays.ask _).moves fun _ =>
      .navigate _
  | false => exact (Action.Stays.pure _).moves

end CardScript
