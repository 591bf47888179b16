import CardScript.Proofs.Stack.Reachable

/-!
# The scripts of a stack

Scripts run but are not written: what holds of every script of a stack, and of the empty script
that new cards and backgrounds have, goes on to hold whatever is done to the stack
(`Stack.Scripted.leads`). What is asked of scripts here is which variables they declare global.
-/

namespace CardScript

/-! ## Declarations -/

mutual

/-- The variables that a command declares global, in the blocks inside it as well. -/
def Command.declared : Command → List Symbol
  | .global names => names
  | .choose _ whenTrue whenFalse => declaredIn whenTrue ++ declaredIn whenFalse
  | .loop _ body => declaredIn body
  | _ => []

def Statement.declared : Statement → List Symbol
  | .mk _ command => command.declared

/-- The variables that statements declare global. -/
def declaredIn : List Statement → List Symbol
  | [] => []
  | s :: rest => s.declared ++ declaredIn rest

end

def Script.declared (s : Script) : List Symbol :=
  s.handlers.flatMap fun h => declaredIn h.body

theorem Script.declared_of_handler? {s : Script} {h : Handler}
    (hfind : s.handler? name isFunction = some h) : declaredIn h.body ⊆ s.declared :=
  fun _ hname => List.mem_flatMap.2 ⟨h, List.mem_of_find?_eq_some hfind, hname⟩

/-! ## All scripts -/

/-- What holds of the scripts of a card and of its parts. -/
structure Card.Scripted (P : Script → Prop) (c : Card) : Prop where
  own : P c.script
  parts : ∀ p ∈ c.parts, P p.script

/-- What holds of the scripts of a background and of its parts. -/
structure Background.Scripted (P : Script → Prop) (b : Background) : Prop where
  own : P b.script
  parts : ∀ p ∈ b.parts, P p.script

instance {P : Script → Prop} [DecidablePred P] (c : Card) : Decidable (c.Scripted P) :=
  decidable_of_iff (P c.script ∧ ∀ p ∈ c.parts, P p.script)
    ⟨fun h => ⟨h.1, h.2⟩, fun h => ⟨h.own, h.parts⟩⟩

instance {P : Script → Prop} [DecidablePred P] (b : Background) : Decidable (b.Scripted P) :=
  decidable_of_iff (P b.script ∧ ∀ p ∈ b.parts, P p.script)
    ⟨fun h => ⟨h.1, h.2⟩, fun h => ⟨h.own, h.parts⟩⟩

theorem Part.script_setText {p q : Part} (h : p.setText card value = .ok q) :
    q.script = p.script := by
  have hshared (h : p.setSharedText value = .ok q) : q.script = p.script := by
    obtain ⟨table, _, h⟩ := Failure.bind_eq_ok.1 h
    cases h
    rfl
  rw [Part.setText_eq] at h
  split at h
  · split at h
    · cases h
      rfl
    · exact hshared h
  · exact hshared h

namespace Stack

/-- What holds of all scripts of a stack. -/
structure Scripted (P : Script → Prop) (s : Stack) : Prop where
  own : P s.script
  cards : ∀ c ∈ s.cards, c.Scripted P
  backgrounds : ∀ b ∈ s.backgrounds, b.Scripted P

instance {P : Script → Prop} [DecidablePred P] (s : Stack) : Decidable (s.Scripted P) :=
  decidable_of_iff
    (P s.script ∧ (∀ c ∈ s.cards, c.Scripted P) ∧ ∀ b ∈ s.backgrounds, b.Scripted P)
    ⟨fun h => ⟨h.1, h.2.1, h.2.2⟩, fun h => ⟨h.own, h.cards, h.backgrounds⟩⟩

/-! ### The script of the stack itself -/

section

variable {s t : Stack}

theorem script_setContents (h : s.setContents f value = .ok t) : t.script = s.script := by
  rw [setContents_eq] at h
  split at h
  · split at h
    · obtain ⟨p, -, h⟩ := Failure.bind_eq_ok.1 h
      cases h
      rfl
    · cases h
  · cases h

theorem script_withTable (s : Stack) (table : PropertyTable) (r : PartRef) :
    (s.withTable table r).script = s.script := by
  cases r with
  | stack => rfl
  | _ =>
    rw [withTable]
    split <;> rfl

theorem script_setProperty (h : s.setProperty f key value = .ok t) : t.script = s.script := by
  simp only [setProperty_eq] at h
  split at h
  · cases h
  split at h
  · exact script_setContents h
  obtain ⟨before, -, h⟩ := Failure.bind_eq_ok.1 h
  obtain ⟨table, -, h⟩ := Failure.bind_eq_ok.1 h
  cases h
  exact s.script_withTable table f.part

theorem script_deleteCard {id : PartId} (h : s.deleteCard id = .ok t) : t.script = s.script := by
  rw [deleteCard_eq] at h
  split at h
  · split at h
    · cases h
    · cases h
      rfl
  · cases h

theorem script_edit {e : Edit} (h : e.apply s = .ok t) : t.script = s.script := by
  cases e with
  | newCard =>
    obtain ⟨id, hnew⟩ := Edit.apply_newCard.1 h
    obtain ⟨current, -, -, rfl⟩ := newCard_eq_ok hnew
    rfl
  | newBackground =>
    cases h
    rfl
  | deleteCard id => exact script_deleteCard h
  | showCard id =>
    obtain ⟨-, rfl⟩ := showCard_eq_ok h
    rfl

/-- Nothing that is done to a stack changes its script. -/
theorem Leads.script_eq (h : s.Leads t) : t.script = s.script := by
  induction h with
  | refl => rfl
  | step _ hstep ih =>
    rw [← ih]
    cases hstep with
    | edit e h => exact script_edit h
    | contents h => exact script_setContents h
    | property h => exact script_setProperty h

end

namespace Scripted

variable {P : Script → Prop} {s t : Stack}

theorem of_forall (h : ∀ script, P script) : s.Scripted P :=
  ⟨h _, fun _ _ => ⟨h _, fun _ _ => h _⟩, fun _ _ => ⟨h _, fun _ _ => h _⟩⟩

theorem allParts (hs : s.Scripted P) {p : Part} (hp : p ∈ s.allParts) : P p.script := by
  rcases mem_allParts.1 hp with ⟨c, hc, hp⟩ | ⟨b, hb, hp⟩
  · exact (hs.cards c hc).parts p hp
  · exact (hs.backgrounds b hb).parts p hp

theorem scriptOf {r : PartRef} {found : Script} (hs : s.Scripted P)
    (h : s.scriptOf r = .ok found) : P found := by
  have hsome {script? : Option Script}
      (h : (match script? with
        | some script => .ok script
        | none => .error (gone r)) = (.ok found : Except Failure Script)) :
      script? = some found := by
    cases script? with
    | some script => exact congrArg some (Except.ok.inj h)
    | none => cases h
  cases r with
  | stack =>
    cases h
    exact hs.own
  | card id =>
    obtain ⟨c, hc, rfl⟩ := Option.map_eq_some_iff.1 (hsome h)
    exact (hs.cards c (card?_eq_some hc).1).own
  | background id =>
    obtain ⟨b, hb, rfl⟩ := Option.map_eq_some_iff.1 (hsome h)
    exact (hs.backgrounds b (background?_eq_some hb).1).own
  | part kind layer id =>
    obtain ⟨p, hp, rfl⟩ := Option.map_eq_some_iff.1 (hsome h)
    exact hs.allParts (part?_eq_some hp).1

/-! ### Writing -/

theorem withPart {p : Part} (hs : s.Scripted P) (hp : P p.script) : (s.withPart p).Scripted P := by
  have hreplace {parts : List Part} (hparts : ∀ q ∈ parts, P q.script) :
      ∀ q ∈ replacePart p parts, P q.script := by
    intro q hq
    obtain ⟨q₀, hq₀, rfl⟩ := List.mem_map.1 hq
    split
    · exact hp
    · exact hparts q₀ hq₀
  refine ⟨hs.own, fun c hc => ?_, fun b hb => ?_⟩
  · obtain ⟨c₀, hc₀, rfl⟩ := List.mem_map.1 hc
    exact ⟨(hs.cards c₀ hc₀).own, hreplace (hs.cards c₀ hc₀).parts⟩
  · obtain ⟨b₀, hb₀, rfl⟩ := List.mem_map.1 hb
    exact ⟨(hs.backgrounds b₀ hb₀).own, hreplace (hs.backgrounds b₀ hb₀).parts⟩

theorem setContents (hs : s.Scripted P) (h : s.setContents f value = .ok t) : t.Scripted P := by
  rw [Stack.setContents_eq] at h
  split at h
  · split at h
    next p hp =>
      obtain ⟨q, hq, h⟩ := Failure.bind_eq_ok.1 h
      cases h
      exact hs.withPart (Part.script_setText hq ▸ hs.allParts (part?_eq_some hp).1)
    next => cases h
  · cases h

theorem withTable (hs : s.Scripted P) (table : PropertyTable) (r : PartRef) :
    (s.withTable table r).Scripted P := by
  cases r with
  | stack => exact ⟨hs.own, hs.cards, hs.backgrounds⟩
  | card id =>
    simp only [Stack.withTable]
    split
    next c hc =>
      have hcard := hs.cards c (card?_eq_some hc).1
      refine ⟨hs.own, fun c' hc' => ?_, hs.backgrounds⟩
      obtain ⟨c₀, hc₀, rfl⟩ := List.mem_map.1 hc'
      split
      · exact ⟨hcard.own, hcard.parts⟩
      · exact hs.cards c₀ hc₀
    next => exact hs
  | background id =>
    simp only [Stack.withTable]
    split
    next b hb =>
      have hbackground := hs.backgrounds b (background?_eq_some hb).1
      refine ⟨hs.own, hs.cards, fun b' hb' => ?_⟩
      obtain ⟨b₀, hb₀, rfl⟩ := List.mem_map.1 hb'
      split
      · exact ⟨hbackground.own, hbackground.parts⟩
      · exact hs.backgrounds b₀ hb₀
    next => exact hs
  | part kind layer id =>
    simp only [Stack.withTable]
    split
    next p hp =>
      have hscript := hs.allParts (part?_eq_some hp).1
      exact hs.withPart hscript
    next => exact hs

theorem setProperty (hs : s.Scripted P) (h : s.setProperty f key value = .ok t) :
    t.Scripted P := by
  simp only [Stack.setProperty_eq] at h
  split at h
  · cases h
  split at h
  · exact hs.setContents h
  obtain ⟨before, _, h⟩ := Failure.bind_eq_ok.1 h
  obtain ⟨table, _, h⟩ := Failure.bind_eq_ok.1 h
  cases h
  exact hs.withTable table f.part

/-! ### Edits -/

theorem insertAfterCurrent {card : Card} (hs : s.Scripted P) (hcard : card.Scripted P) :
    (s.insertAfterCurrent card).Scripted P := by
  refine ⟨hs.own, fun c hc => ?_, hs.backgrounds⟩
  rcases List.mem_cons.1 ((cards_insertAfterCurrent s card).mem_iff.1 hc) with rfl | hc
  · exact hcard
  · exact hs.cards c hc

theorem newBackground (hs : s.Scripted P) (hP : P {}) : s.newBackground.2.Scripted P := by
  refine insertAfterCurrent ⟨hs.own, hs.cards, fun b hb => ?_⟩ ⟨hP, nofun⟩
  rcases List.mem_append.1 hb with hb | hb
  · exact hs.backgrounds b hb
  · rw [List.mem_singleton.1 hb]
    exact ⟨hP, nofun⟩

theorem deleteCard {id : PartId} (hs : s.Scripted P) (h : s.deleteCard id = .ok t) :
    t.Scripted P := by
  have hown := script_deleteCard h
  obtain ⟨removed, -, h⟩ := deleteCard_eq_ok h
  exact ⟨hown ▸ hs.own, fun c hc => hs.cards c (h.cards_sublist.subset hc),
    fun b hb => hs.backgrounds b (h.backgrounds_sublist.subset hb)⟩

theorem edit (hs : s.Scripted P) (hP : P {}) {e : Edit} (h : e.apply s = .ok t) :
    t.Scripted P := by
  cases e with
  | newCard =>
    obtain ⟨id, hnew⟩ := Edit.apply_newCard.1 h
    obtain ⟨current, -, -, rfl⟩ := Stack.newCard_eq_ok hnew
    exact insertAfterCurrent ⟨hs.own, hs.cards, hs.backgrounds⟩ ⟨hP, nofun⟩
  | newBackground =>
    cases h
    exact hs.newBackground hP
  | deleteCard id => exact hs.deleteCard h
  | showCard id =>
    obtain ⟨-, rfl⟩ := Stack.showCard_eq_ok h
    exact ⟨hs.own, hs.cards, hs.backgrounds⟩

/-! ### Runs -/

theorem step (hs : s.Scripted P) (hP : P {}) (h : s.Step t) : t.Scripted P := by
  cases h with
  | edit e h => exact hs.edit hP h
  | contents h => exact hs.setContents h
  | property h => exact hs.setProperty h

theorem leads (hs : s.Scripted P) (hP : P {}) (h : s.Leads t) : t.Scripted P := by
  induction h with
  | refl => exact hs
  | step _ hstep ih => exact ih.step hP hstep

end Scripted

end Stack

end CardScript
