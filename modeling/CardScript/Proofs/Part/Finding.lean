import CardScript.Part.Finding
import CardScript.Proofs.Stack.Coherence

/-!
# What simple addresses find

Each of the finders for one scope says where in the stack its result lies: among the cards of the
stack, the backgrounds that have cards, the parts of a card or the parts of a background. The card
through which a background is seen always lies on it.
-/

namespace CardScript

/-! ## Picking from a list -/

namespace Finding

variable {α : Type} {items : List α} {a : α}

theorem nth?_mem (h : nth? items n = some a) : a ∈ items := by
  unfold nth? at h
  split at h
  · exact List.mem_of_getElem? h
  · cases h

theorem select?_mem {idOf : α → PartId} {nameOf : α → String}
    (h : select? draws items idOf nameOf spec = some a) : a ∈ items := by
  cases spec with
  | id layer type id => exact List.mem_of_find?_eq_some h
  | name layer type name literal =>
    simp only [select?] at h
    split at h
    next hnamed =>
      cases h
      exact List.mem_of_find?_eq_some hnamed
    next =>
      split at h
      · cases h
      · obtain ⟨n, _, h⟩ := Option.bind_eq_some_iff.1 h
        exact nth?_mem h
  | number layer type n => exact nth?_mem h
  | ordinal layer type word => exact nth?_mem h
  | position type position => cases h
  | stack name => cases h
  | of part owner => cases h
  | resolved handle => cases h

end Finding

theorem PartType.type_of_kind? {type : PartType} {kind : PartKind} (h : type.kind? = some kind) :
    kind.type = type := by
  cases type with
  | button | field =>
    cases h
    rfl
  | card | background | stack => cases h

namespace Stack

variable {s : Stack}

theorem mem_cardsOf {c : Card} {background : PartId} :
    c ∈ s.cardsOf background ↔ c ∈ s.cards ∧ c.background = background := by
  simp [cardsOf]

theorem mem_of_mem_firstOccurrences {ids : List PartId} {id : PartId}
    (h : id ∈ firstOccurrences ids) : id ∈ ids := by
  induction ids with
  | nil => cases h
  | cons first rest ih =>
    rcases List.mem_cons.1 h with rfl | h
    · exact List.mem_cons_self
    · exact List.mem_cons_of_mem _ (ih (List.mem_of_mem_filter h))

/-- The backgrounds that can be addressed are those with cards. -/
theorem mem_backgroundsInOrder {b : Background} (h : b ∈ s.backgroundsInOrder) :
    b ∈ s.backgrounds ∧ ∃ c ∈ s.cards, c.background = b.id := by
  obtain ⟨id, hid, hb⟩ := List.mem_filterMap.1 h
  obtain ⟨hmem, rfl⟩ := background?_eq_some hb
  obtain ⟨c, hc, hon⟩ := List.mem_map.1 (mem_of_mem_firstOccurrences hid)
  exact ⟨hmem, c, hc, hon⟩

end Stack

/-! ## Scopes -/

namespace Scope

open Finding

variable {s : Stack} {f : Found} {spec : Specifier} {current : PartId}

/-- A background with a card is seen through one. -/
theorem contextFor_of_mem {c : Card} (hc : c ∈ s.cards) (current : PartId) :
    ∃ c' ∈ s.cards, c'.background = c.background ∧
      contextFor s current c.background = some c'.id := by
  have hfirst : ∃ c' ∈ s.cards, c'.background = c.background ∧
      ((s.cardsOf c.background).head?).map (·.id) = some c'.id := by
    have hne := List.ne_nil_of_mem (Stack.mem_cardsOf.2 ⟨hc, rfl⟩)
    obtain ⟨c', rest, hcards⟩ := List.exists_cons_of_ne_nil hne
    obtain ⟨hc', hon⟩ := Stack.mem_cardsOf.1 (hcards ▸ List.mem_cons_self)
    exact ⟨c', hc', hon, by rw [hcards]; rfl⟩
  unfold contextFor
  split
  next c' hc' =>
    split
    next hon => exact ⟨c', (Stack.card?_eq_some hc').1, eq_of_beq hon, rfl⟩
    next => exact hfirst
  next => exact hfirst

theorem relativeCard?_mem {c : Card} (h : relativeCard? s index position = some c) :
    c ∈ s.cards := by
  cases position with
  | this => exact List.mem_of_getElem? h
  | next => exact List.mem_of_getElem? h
  | prev =>
    simp only [relativeCard?] at h
    split at h
    · cases h
    · exact List.mem_of_getElem? h

theorem relativeBackground?_mem {c : Card}
    (h : relativeBackground? s index here position = some c) : c ∈ s.cards := by
  cases position with
  | this => exact List.mem_of_getElem? h
  | next => exact List.mem_of_mem_drop (List.mem_of_find?_eq_some h)
  | prev => exact List.mem_of_mem_take (List.mem_reverse.1 (List.mem_of_find?_eq_some h))

theorem findCard_eq_ok (h : findCard s draws current missing spec = .ok f) :
    ∃ c ∈ s.cards, f = .ofCard c.id := by
  unfold findCard at h
  dsimp only at h
  split at h
  · obtain ⟨index, _, h⟩ := Failure.bind_eq_ok.1 h
    rw [pure_bind] at h
    split at h
    next c hc =>
      cases h
      exact ⟨c, relativeCard?_mem hc, rfl⟩
    next => cases h
  · rw [pure_bind] at h
    split at h
    next c hc =>
      cases h
      exact ⟨c, select?_mem hc, rfl⟩
    next => cases h

theorem findBackground_eq_ok (h : findBackground s draws current missing spec = .ok f) :
    ∃ c ∈ s.cards, f = ⟨.background c.background, some c.id⟩ := by
  unfold findBackground at h
  split at h
  · obtain ⟨index, _, h⟩ := Failure.bind_eq_ok.1 h
    dsimp only at h
    split at h
    next c hc =>
      cases h
      exact ⟨c, relativeBackground?_mem hc, rfl⟩
    next => cases h
  · split at h
    next b hb =>
      cases h
      obtain ⟨_, c, hc, hon⟩ := Stack.mem_backgroundsInOrder (select?_mem hb)
      obtain ⟨c', hc', hon', hcontext⟩ := contextFor_of_mem hc current
      rw [← hon]
      exact ⟨c', hc', by rw [hcontext, hon']⟩
    next => cases h

theorem findPart_eq_ok (h : findPart draws parts kind layer context missing spec = .ok f) :
    ∃ p ∈ parts, p.kind = kind ∧ f = ⟨.part kind layer p.id, context⟩ := by
  unfold findPart at h
  split at h
  next p hp =>
    cases h
    obtain ⟨hmem, hkind⟩ := List.mem_filter.1 (select?_mem hp)
    exact ⟨p, hmem, eq_of_beq hkind, rfl⟩
  next => cases h

/-- On a background: one of its cards or one of its parts. -/
theorem findOnBackground_eq_ok
    (h : findOnBackground s draws b context missing spec = .ok f) :
    (spec.type = .card ∧ ∃ c ∈ s.cards, c.background = b.id ∧ f = .ofCard c.id) ∨
    ∃ p ∈ b.parts, spec.type = p.kind.type ∧ f = ⟨.part p.kind .background p.id, context⟩ := by
  unfold findOnBackground at h
  split at h
  next htype =>
    split at h
    next c hc =>
      cases h
      obtain ⟨hmem, hon⟩ := Stack.mem_cardsOf.1 (select?_mem hc)
      exact .inl ⟨htype, c, hmem, hon, rfl⟩
    next => cases h
  next kind hkind _ =>
    split at h
    · cases h
    · obtain ⟨p, hp, rfl, rfl⟩ := findPart_eq_ok h
      exact .inr ⟨p, hp, (PartType.type_of_kind? hkind).symm, rfl⟩
  next => cases h

/-- On a card: its background, one of its parts or a part of its background. -/
theorem findOnCard_eq_ok (h : findOnCard s draws c missing spec = .ok f) :
    (spec.type = .background ∧ f = ⟨.background c.background, some c.id⟩) ∨
    (∃ p ∈ c.parts, spec.type = p.kind.type ∧ f = ⟨.part p.kind .card p.id, some c.id⟩) ∨
    ∃ b ∈ s.backgrounds, b.id = c.background ∧ ∃ p ∈ b.parts,
      spec.type = p.kind.type ∧ f = ⟨.part p.kind .background p.id, some c.id⟩ := by
  unfold findOnCard at h
  split at h
  · split at h
    · cases h
      exact .inl ⟨rfl, rfl⟩
    · cases h
  next kind hkind =>
    split at h
    · obtain ⟨p, hp, rfl, rfl⟩ := findPart_eq_ok h
      exact .inr (.inl ⟨p, hp, (PartType.type_of_kind? hkind).symm, rfl⟩)
    · split at h
      next b hb =>
        obtain ⟨hmem, hid⟩ := Stack.background?_eq_some hb
        rcases findOnBackground_eq_ok h with ⟨htype, _⟩ | hpart
        · rw [htype] at hkind
          cases hkind
        · exact .inr (.inr ⟨b, hmem, hid, hpart⟩)
      next => cases h

end Scope

end CardScript
