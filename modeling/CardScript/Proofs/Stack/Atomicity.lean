import CardScript.Part.Access
import CardScript.Proofs.Editing
import CardScript.Stack.Editing

/-!
# Edits of a stack that fail

Adding, removing and showing a card and writing to a part change nothing if they fail. What each
comes to is told by its result (`Stack.newCard_eq`, `Stack.deleteCard_eq`, `Stack.showCard_eq`,
`Stack.setContents_eq`, `Stack.setProperty_eq`).
-/

namespace CardScript

/-- The part with another text for all cards. -/
def Part.setSharedText (p : Part) (value : Value) : Except Failure Part := do
  return { p with properties := ← p.properties.set (contentsProperty p.kind) value }

theorem Part.setText_eq (p : Part) (card : Option PartId) (value : Value) :
    p.setText card value =
      match card with
      | some card =>
        if p.isPerCard then .ok { p with cardTexts := putCardText card value p.cardTexts }
        else p.setSharedText value
      | none => p.setSharedText value := by
  have hshared : (do
      p.properties.checkSet (contentsProperty p.kind)
      return { p with properties := p.properties.define (contentsProperty p.kind) value } :
        Except Failure Part) = p.setSharedText value := by
    unfold setSharedText PropertyTable.set
    cases p.properties.checkSet (contentsProperty p.kind) with
    | ok | error => rfl
  cases card with
  | none => exact hshared
  | some card =>
    simp only [setText, checkText, putText, Option.isSome_some, Bool.true_and]
    split
    · rfl
    · exact hshared

namespace Stack

open Editing

variable {s t : Stack}

/-! ## Cards -/

theorem allocating_total : Total allocating :=
  modifyGet_total _

theorem addingCard_atomic : Atomic addingCard :=
  (demand_reads _).bind_atomic fun _ =>
    (allocating_total.bind fun _ => (modify_total _).bind fun _ => pure_total _).atomic

theorem newCard_eq (s : Stack) :
    s.newCard =
      match s.card? s.currentCard with
      | none => .error (.internal .strayCurrentCard)
      | some current =>
        .ok (s.nextId, { s with nextId := s.nextId + 1 }.insertAfterCurrent
          (.blank s.nextId current.background "" {})) := by
  unfold newCard outcome addingCard
  cases hcurrent : s.card? s.currentCard with
  | none =>
    have hshown : s.shown = .error (.internal .strayCurrentCard) := by rw [shown, hcurrent]; rfl
    rw [bind_error (demand_of_error hshown)]
  | some current =>
    have hshown : s.shown = .ok current := by rw [shown, hcurrent]; rfl
    rw [bind_ok (demand_of_ok hshown)]
    rfl

/-- A new card lies on the background of the current one. -/
theorem newCard_eq_ok {id : PartId} (h : s.newCard = .ok (id, t)) :
    ∃ current, s.card? s.currentCard = some current ∧ id = s.nextId ∧
      t = { s with nextId := s.nextId + 1 }.insertAfterCurrent
        (.blank s.nextId current.background "" {}) := by
  rw [newCard_eq] at h
  split at h
  · cases h
  next current hcurrent =>
    cases h
    exact ⟨current, hcurrent, rfl, rfl⟩

theorem removingCard_atomic (id : PartId) : Atomic (removingCard id) :=
  (demand_reads _).bind_atomic fun _ =>
    ((modify_total _).bind fun _ => (modify_total _).bind fun _ => modify_total _).atomic

theorem deleteCard_eq (s : Stack) (id : PartId) :
    s.deleteCard id =
      match s.cardIndex? id, s.card? id with
      | some index, some removed =>
        if s.cards.length == 1 then .error (.semantic .lastCard)
        else
          let cards := s.cards.eraseIdx index
          let backgrounds :=
            if cards.all (·.background != removed.background) then
              s.backgrounds.filter (·.id != removed.background)
            else s.backgrounds
          let currentCard :=
            if s.currentCard == id then
              (cards[min index (cards.length - 1)]?.map (·.id)).getD s.currentCard
            else s.currentCard
          .ok { s with cards, backgrounds, currentCard }
      | _, _ => .error (.noSuchPart s!"card id {id}") := by
  rw [deleteCard, removingCard, result_demand_bind, removable]
  cases s.cardIndex? id with
  | none => rfl
  | some index =>
    cases s.card? id with
    | none => rfl
    | some removed =>
      dsimp only
      split
      · rfl
      · show Except.ok _ = _
        simp only [dropUnused, replaceCurrent]
        split <;> split <;> rfl

theorem showingCard_atomic (id : PartId) : Atomic (showingCard id) :=
  (demand_reads _).bind_atomic fun _ => (modify_total _).atomic

theorem showCard_eq (s : Stack) (id : PartId) :
    s.showCard id =
      if (s.card? id).isSome then .ok { s with currentCard := id }
      else .error (.noSuchPart s!"card id {id}") := by
  rw [showCard, showingCard, result_demand_bind]
  cases hcard : s.card? id with
  | none => rfl
  | some card =>
    have hid : card.id = id := eq_of_beq (List.find?_some hcard :)
    rw [← hid]
    rfl

theorem showCard_eq_ok {id : PartId} (h : s.showCard id = .ok t) :
    (s.card? id).isSome ∧ t = { s with currentCard := id } := by
  rw [showCard_eq] at h
  split at h
  next hcard =>
    cases h
    exact ⟨hcard, rfl⟩
  · cases h

/-! ## Contents and properties -/

theorem settingContents_atomic (f : Found) (value : Value) : Atomic (settingContents f value) :=
  (demand_reads _).bind_atomic fun _ =>
    (ofExcept_reads _).bind_atomic fun _ => (modify_total _).atomic

theorem setContents_eq (s : Stack) (f : Found) (value : Value) :
    s.setContents f value =
      match f.part with
      | .part _ _ id =>
        match s.part? id with
        | some p => do return s.withPart (← p.setText f.card value)
        | none => .error (gone f.part)
      | r => .error (.semantic (.notWritable (s.describe r))) := by
  obtain ⟨part, card⟩ := f
  rw [setContents, settingContents, result_demand_bind, writable]
  cases part with
  | stack | card _ | background _ => rfl
  | part kind layer id =>
    dsimp only
    cases s.part? id with
    | none => rfl
    | some p =>
      show (Editing.ofExcept (p.checkText card) >>= _ : Editing Stack Unit).result s = _
      dsimp only
      rw [result_ofExcept_bind, Part.setText]
      cases p.checkText card with
      | ok | error => rfl

theorem settingProperty_atomic (f : Found) (name : String) (value : Value) :
    Atomic (settingProperty f name value) := by
  unfold settingProperty
  dsimp only
  split
  · exact (throw_reads _).atomic
  split
  · exact settingContents_atomic f value
  · exact (demand_reads _).bind_atomic fun _ =>
      (ofExcept_reads _).bind_atomic fun _ => (modify_total _).atomic

theorem setProperty_eq (s : Stack) (f : Found) (name : String) (value : Value) :
    s.setProperty f name value =
      let key := Text.lowerString name
      if computedKeys.contains key then .error (.semantic (.cannotSet name))
      else if isContentsKey f.part key then s.setContents f value
      else do return s.withTable (← (← s.tableOf f.part).set name value) f.part := by
  unfold setProperty settingProperty
  dsimp only
  split
  · rfl
  split
  · rfl
  rw [result_demand_bind]
  cases s.tableOf f.part with
  | error f => rfl
  | ok table =>
    show (Editing.ofExcept (table.checkSet name) >>= _ : Editing Stack Unit).result s = _
    rw [result_ofExcept_bind]
    show _ = (do return s.withTable (← table.set name value) f.part)
    unfold PropertyTable.set
    cases table.checkSet name with
    | ok | error => rfl

end Stack

end CardScript
