import CardScript.Proofs.Script.Whereabouts

/-!
# Going somewhere and nowhere

A destination that cannot be found is no failure: the result says so, and nothing has moved. A
destination that was found may be gone when its card is to be shown, because the card one left has
removed it, or because it was removed since one was there. Going ends normally exactly if it is
still there (`go_settles`).
-/

namespace CardScript

variable {invoke : Invoke} {destination : Option PartExpr} {m m₁ m₂ : Machine}
  {spec : Option Specifier} {place : Destination} {announce : Bool}

/-- Evaluates where to go, if a destination is named. -/
def evalDestination (invoke : Invoke) : Option PartExpr → Action (Option Specifier)
  | some p => do return some (← evalPart invoke p)
  | none => pure none

namespace Machine

/-- The visual effect that was asked for. -/
def effect? (m : Machine) : Option String :=
  m.frame?.bind (·.effect)

def withoutEffect (m : Machine) : Machine :=
  m.onTop ({ · with effect := none })

/-- The place that an address leads to or, without an address, that one came from. If there is no
such place, what the result is to say. -/
def aim (m : Machine) (effect : Option String) : Option Specifier → Except Value Destination
  | some spec =>
    match locate m spec with
    | .ok (stack, card) => .ok { stack, card, effect }
    | .error reason => .error (.ofText reason.message)
  | none =>
    match m.world.desktop.history with
    | previous :: _ => .ok previous
    | [] => .error .empty

/-- The machine when the place is known: an address has used up its draws, and without one the
desktop has gone back. -/
def setOut (m : Machine) : Option Specifier → Machine
  | some spec => m.withWorld { m.world with draws := m.world.draws.skip spec.draws }
  | none => m.withWorld { m.world with desktop := m.world.desktop.goBack.2 }

end Machine

theorem goTo_apply {p : PartExpr} {found : Specifier}
    (heval : evalPart invoke p m = .ok found m₁) (effect : Option String) :
    goTo invoke p effect m =
      match m₁.aim effect (some found) with
      | .ok place => arrive invoke place true (m₁.setOut (some found))
      | .error result =>
        .ok .normal { m₁.setOut (some found) with context := { m₁.context with result } } := by
  refine (Action.bind_apply_ok heval).trans
    ((Action.bind_apply_ok rfl).trans ((Action.bind_apply_ok rfl).trans ?_))
  simp only [Machine.aim]
  cases locate m₁ found <;> rfl

theorem goBack_apply (effect : Option String) :
    goBack invoke m =
      match m.aim effect none with
      | .ok place => arrive invoke place false (m.setOut none)
      | .error result =>
        .ok .normal { m.setOut none with context := { m.context with result } } := by
  have hstep : stepBack m = .ok m.world.desktop.goBack.1 (m.setOut none) := rfl
  have hprevious : m.world.desktop.goBack.1 = m.world.desktop.history.head? := by
    unfold Desktop.goBack
    cases m.world.desktop.history <;> rfl
  rw [goBack_eq, Action.bind_apply_ok hstep, hprevious]
  unfold Machine.aim
  cases m.world.desktop.history <;> rfl

theorem go_apply (heval : evalDestination invoke destination m.withoutEffect = .ok spec m₁) :
    go invoke destination m =
      match m₁.aim m.effect? spec with
      | .ok place => arrive invoke place spec.isSome (m₁.setOut spec)
      | .error result =>
        .ok .normal { m₁.setOut spec with context := { m₁.context with result } } := by
  cases destination with
  | some p =>
    cases hpart : evalPart invoke p m.withoutEffect with
    | ok found m' =>
      have hsame := (Action.bind_apply_ok hpart).symm.trans heval
      cases hsame
      exact goTo_apply hpart m.effect?
    | error halt m' =>
      have hsame := (Action.bind_apply_error hpart).symm.trans heval
      cases hsame
  | none =>
    cases heval
    exact goBack_apply m.effect?

theorem arrive_apply (hleave : leaveCard invoke m = .ok true m₁) :
    arrive invoke place announce m =
      (do
        land place announce
        return (← notify invoke (.ofCard place.stack place.card) "openCard").afterMessage) m₁ := by
  rw [arrive_eq]
  exact Action.bind_apply_ok hleave

theorem land_gone (hcard : (m.world.stack place.stack).card? place.card = none) :
    ∃ m', land place announce m =
      .error (.failed { failure := .noSuchPart s!"card id {place.card}" }) m' := by
  rw [land_apply, Stack.showCard_eq, hcard]
  exact ⟨_, rfl⟩

theorem land_there (hcard : ((m.world.stack place.stack).card? place.card).isSome) :
    ∃ m', land place announce m = .ok () m' := by
  rw [land_apply, Stack.showCard_eq, if_pos hcard]
  exact ⟨_, rfl⟩

/-- Who has nowhere to go back to stays. -/
theorem Machine.setOut_nowhere (h : m.aim effect spec = .error result) :
    (m.setOut spec).world.desktop = m.world.desktop ∧
      (m.setOut spec).world.allStacks = m.world.allStacks := by
  cases spec with
  | some spec => exact ⟨rfl, rfl⟩
  | none =>
    refine ⟨?_, rfl⟩
    unfold aim at h
    unfold setOut Desktop.goBack
    cases hhistory : m.world.desktop.history with
    | nil => rfl
    | cons previous rest =>
      rw [hhistory] at h
      cases h

/-- **Going nowhere is no failure.** Let the destination of a `go` evaluate. If it leads nowhere,
the script goes on; the result tells why, and no stack, and nothing on the desktop, has changed. If
it leads somewhere, the card one leaves lets one go and the card one comes to does not fail or end
everything, then the script goes on exactly if the card one comes to is still there. -/
theorem go_settles (heval : evalDestination invoke destination m.withoutEffect = .ok spec m₁) :
    (∀ result, m₁.aim m.effect? spec = .error result →
      ∃ m', go invoke destination m = .ok .normal m' ∧
        m'.context = { m₁.context with result } ∧
        m'.world.desktop = m₁.world.desktop ∧ m'.world.allStacks = m₁.world.allStacks) ∧
    ∀ place m₂, m₁.aim m.effect? spec = .ok place →
      leaveCard invoke (m₁.setOut spec) = .ok true m₂ →
      (∀ m₃, land place spec.isSome m₂ = .ok () m₃ →
        ∃ flow m₄, notify invoke (.ofCard place.stack place.card) "openCard" m₃ = .ok flow m₄ ∧
          flow.isExitToHyperCard = false) →
      ((∃ m', go invoke destination m = .ok .normal m') ↔
        ((m₂.world.stack place.stack).card? place.card).isSome) := by
  refine ⟨fun result hresult => ?_, fun place m₂ hplace hleave hopen => ?_⟩
  · have hgo := go_apply heval
    rw [hresult] at hgo
    exact ⟨_, hgo, rfl, Machine.setOut_nowhere hresult⟩
  · have hgo : go invoke destination m = _ :=
      ((go_apply heval).trans (by rw [hplace])).trans (arrive_apply hleave)
    rw [hgo]
    constructor
    · rintro ⟨m', hnormal⟩
      by_contra hgone
      obtain ⟨m₃, hland⟩ := land_gone (Option.not_isSome_iff_eq_none.1 hgone)
      rw [Action.bind_apply_error hland] at hnormal
      cases hnormal
    · intro hcard
      obtain ⟨m₃, hland⟩ := land_there hcard
      obtain ⟨flow, m₄, hheard, hflow⟩ := hopen m₃ hland
      refine ⟨m₄, ?_⟩
      rw [Action.bind_apply_ok hland, Action.bind_apply_ok hheard]
      cases flow with
      | exitToHyperCard => cases hflow
      | _ => rfl

/-- One goes to the second card of a stack, which is there. -/
theorem go_settles_twoCards :
    ∃ (s : Stack) (m' : Machine), StackSnapshot.twoCards.toStack = .ok s ∧
      go (CardScript.invoke 8) (some (.named none .card (.literal "2" false)))
        { world := World.opening {} [s] [0] } = .ok .normal m' := by
  let second : PartExpr := .named none .card (.literal "2" false)
  let place : Destination := { stack := 0, card := 105 }
  obtain ⟨s, hs, spec, m₁, heval, hplace, m₂, hleave, hcard, m₃, hland, m₄, hopen⟩ :
      ∃ s : Stack, StackSnapshot.twoCards.toStack = .ok s ∧
        let m : Machine := { world := World.opening {} [s] [0] }
        ∃ spec m₁, evalDestination (CardScript.invoke 8) (some second) m.withoutEffect =
            .ok (some spec) m₁ ∧
          m₁.aim m.effect? (some spec) = .ok place ∧
          ∃ m₂, leaveCard (CardScript.invoke 8) (m₁.setOut (some spec)) = .ok true m₂ ∧
            ((m₂.world.stack place.stack).card? place.card).isSome ∧
            ∃ m₃, land place true m₂ = .ok () m₃ ∧
              ∃ m₄, notify (CardScript.invoke 8) (.ofCard 0 105) "openCard" m₃ = .ok .normal m₄ :=
    ⟨_, rfl, _, _, rfl, rfl, _, rfl, rfl, _, rfl, _, rfl⟩
  have hheard : ∀ m', land place true m₂ = .ok () m' →
      ∃ flow m'', notify (CardScript.invoke 8) (.ofCard 0 105) "openCard" m' = .ok flow m'' ∧
        flow.isExitToHyperCard = false := by
    intro m' hm'
    rw [hland] at hm'
    cases hm'
    exact ⟨.normal, m₄, hopen, rfl⟩
  obtain ⟨m', hgo⟩ := ((go_settles heval).2 place m₂ hplace hleave hheard).2 hcard
  exact ⟨s, m', hs, hgo⟩

/-- One goes back to a card that was removed in between. The script fails, and the desktop has one
at a card that is gone. -/
theorem go_back_to_removed_card :
    ∃ s : Stack, StackSnapshot.twoCards.toStack = .ok s ∧
      let card (number : String) : PartExpr := .named none .card (.literal number false)
      let w := (World.opening {} [s] [0]).afterAnswers
        [{ request := .eval none
            [.mk {} (.go (some (card "2"))), .mk {} (.deleteCard (some (card "1")))] }]
      let answer := w.answer { request := .eval none [.mk {} (.go none)] }
      (match answer.1 with
        | .error (.failed error) => error.failure == .noSuchPart "card id 103"
        | _ => false) = true ∧
      answer.2.desktop.location.map (·.card) = some 103 ∧
      ((answer.2.stack 0).card? 103).isNone :=
  ⟨_, rfl, by decide +kernel⟩

end CardScript
