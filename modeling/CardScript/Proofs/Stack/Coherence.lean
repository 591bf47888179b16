import CardScript.Proofs.Stack.Atomicity
import Mathlib.Data.List.Flatten
import Mathlib.Data.List.Nodup
import Mathlib.Data.List.Perm.Basic
import Mathlib.Tactic.MkIffOfInductiveProp

/-!
# Coherent stacks

What holds of a stack at all times: `Stack.Orderly` says that identifiers are distinct and were
given out, that every card lies on a background of the stack and every part on its owner, and
`Stack.Coherent` that one of the cards is current besides. Neither depends on names, texts and
scripts, so both are shown of the `Stack.outline`, which is all that is left without those.
-/

namespace CardScript

/-! ## Identifiers -/

/-- The identifiers of a card and of its parts. -/
def Card.ids (c : Card) : List PartId :=
  c.id :: c.parts.map (·.id)

/-- The identifiers of a background and of its parts. -/
def Background.ids (b : Background) : List PartId :=
  b.id :: b.parts.map (·.id)

namespace Stack

/-- All identifiers in use. -/
def ids (s : Stack) : List PartId :=
  s.cards.flatMap (·.ids) ++ s.backgrounds.flatMap (·.ids)

variable {s t : Stack} {c : Card} {b : Background} {p : Part} {id : PartId}

theorem mem_ids : id ∈ s.ids ↔ (∃ c ∈ s.cards, id ∈ c.ids) ∨ ∃ b ∈ s.backgrounds, id ∈ b.ids := by
  simp only [ids, List.mem_append, List.mem_flatMap]

theorem mem_allParts :
    p ∈ s.allParts ↔ (∃ c ∈ s.cards, p ∈ c.parts) ∨ ∃ b ∈ s.backgrounds, p ∈ b.parts := by
  simp only [allParts, List.mem_append, List.mem_flatMap]

theorem mem_ids_of_card (hc : c ∈ s.cards) (h : id ∈ c.ids) : id ∈ s.ids :=
  mem_ids.2 (.inl ⟨c, hc, h⟩)

theorem mem_ids_of_background (hb : b ∈ s.backgrounds) (h : id ∈ b.ids) : id ∈ s.ids :=
  mem_ids.2 (.inr ⟨b, hb, h⟩)

theorem mem_ids_of_part (hp : p ∈ s.allParts) : p.id ∈ s.ids := by
  have hmem {parts : List Part} {id : PartId} (hp : p ∈ parts) :
      p.id ∈ id :: parts.map (·.id) := List.mem_cons_of_mem _ (List.mem_map_of_mem hp)
  rcases mem_allParts.1 hp with ⟨c, hc, hp⟩ | ⟨b, hb, hp⟩
  · exact mem_ids_of_card hc (hmem hp)
  · exact mem_ids_of_background hb (hmem hp)

theorem card?_eq_some (h : s.card? id = some c) : c ∈ s.cards ∧ c.id = id :=
  ⟨List.mem_of_find?_eq_some h, eq_of_beq (List.find?_some h :)⟩

theorem isSome_card? : (s.card? id).isSome ↔ ∃ c ∈ s.cards, c.id = id := by
  simp [card?]

theorem card?_eq_bind (s : Stack) (id : PartId) :
    s.card? id = (s.cardIndex? id).bind (s.cards[·]?) :=
  List.find?_eq_bind_findIdx?_getElem?

theorem card?_eq_getElem? (h : s.cardIndex? id = some i) : s.card? id = s.cards[i]? := by
  rw [card?_eq_bind, h, Option.bind_some]

theorem cardIndex?_of_card? (h : s.card? id = some c) : ∃ i, s.cardIndex? id = some i := by
  rw [card?_eq_bind] at h
  obtain ⟨i, hi, _⟩ := Option.bind_eq_some_iff.1 h
  exact ⟨i, hi⟩

theorem background?_eq_some (h : s.background? id = some b) : b ∈ s.backgrounds ∧ b.id = id :=
  ⟨List.mem_of_find?_eq_some h, eq_of_beq (List.find?_some h :)⟩

theorem part?_eq_some (h : s.part? id = some p) : p ∈ s.allParts ∧ p.id = id :=
  ⟨List.mem_of_find?_eq_some h, eq_of_beq (List.find?_some h :)⟩

/-- Identifiers are distinct and were given out, cards lie on backgrounds of the stack, and parts
on the card or background that owns them. -/
@[mk_iff]
structure Orderly (s : Stack) : Prop where
  ids_nodup : s.ids.Nodup
  ids_lt : ∀ id ∈ s.ids, id < s.nextId
  background_mem : ∀ c ∈ s.cards, ∃ b ∈ s.backgrounds, b.id = c.background
  card_parts : ∀ c ∈ s.cards, ∀ p ∈ c.parts, p.layer = .card ∧ p.owner = c.id
  background_parts : ∀ b ∈ s.backgrounds, ∀ p ∈ b.parts, p.layer = .background ∧ p.owner = b.id

/-- An orderly stack that shows one of its cards. -/
structure Coherent (s : Stack) : Prop extends Orderly s where
  current_mem : ∃ c ∈ s.cards, c.id = s.currentCard

/-- What else a stack holds does not matter. -/
theorem Orderly.congr (hs : s.Orderly) (hnext : t.nextId = s.nextId) (hcards : t.cards = s.cards)
    (hbackgrounds : t.backgrounds = s.backgrounds) : t.Orderly := by
  have hids : t.ids = s.ids := by rw [ids, ids, hcards, hbackgrounds]
  rw [orderly_iff, hids, hnext, hcards, hbackgrounds, ← orderly_iff]
  exact hs

theorem Coherent.cards_ne_nil (hs : s.Coherent) : s.cards ≠ [] := by
  obtain ⟨c, hc, _⟩ := hs.current_mem
  exact List.ne_nil_of_mem hc

namespace Orderly

theorem cards_nodup (hs : s.Orderly) : (s.cards.map (·.id)).Nodup := by
  have hsub : (s.cards.map (·.id)).Sublist s.ids := by
    rw [List.map_eq_flatMap]
    refine .trans (.flatMap_right _ fun c _ => ?_) (List.sublist_append_left ..)
    exact List.singleton_sublist.2 List.mem_cons_self
  exact hs.ids_nodup.sublist hsub

theorem backgrounds_nodup (hs : s.Orderly) : (s.backgrounds.map (·.id)).Nodup := by
  have hsub : (s.backgrounds.map (·.id)).Sublist s.ids := by
    rw [List.map_eq_flatMap]
    refine .trans (.flatMap_right _ fun b _ => ?_) (List.sublist_append_right ..)
    exact List.singleton_sublist.2 List.mem_cons_self
  exact hs.ids_nodup.sublist hsub

theorem card_eq_of_id_eq (hs : s.Orderly) {c c' : Card} (hc : c ∈ s.cards) (hc' : c' ∈ s.cards)
    (h : c.id = c'.id) : c = c' :=
  List.inj_on_of_nodup_map hs.cards_nodup hc hc' h

theorem background_eq_of_id_eq (hs : s.Orderly) {b b' : Background} (hb : b ∈ s.backgrounds)
    (hb' : b' ∈ s.backgrounds) (h : b.id = b'.id) : b = b' :=
  List.inj_on_of_nodup_map hs.backgrounds_nodup hb hb' h

theorem card_ids_nodup (hs : s.Orderly) (hc : c ∈ s.cards) : c.ids.Nodup :=
  (List.nodup_flatMap.1 hs.ids_nodup.of_append_left).1 c hc

theorem background_ids_nodup (hs : s.Orderly) (hb : b ∈ s.backgrounds) : b.ids.Nodup :=
  (List.nodup_flatMap.1 hs.ids_nodup.of_append_right).1 b hb

theorem part_eq_of_id_eq (hs : s.Orderly) {p p' : Part} (hp : p ∈ s.allParts)
    (hp' : p' ∈ s.allParts) (h : p.id = p'.id) : p = p' := by
  have hsub : (s.allParts.map (·.id)).Sublist s.ids := by
    simp only [allParts, List.map_append, List.map_flatMap]
    refine .append (.flatMap_right _ fun c _ => ?_) (.flatMap_right _ fun b _ => ?_)
    · exact List.sublist_cons_self ..
    · exact List.sublist_cons_self ..
  exact List.inj_on_of_nodup_map (hs.ids_nodup.sublist hsub) hp hp' h

theorem card?_eq (hs : s.Orderly) (hc : c ∈ s.cards) : s.card? c.id = some c := by
  obtain ⟨c', hc'⟩ := Option.isSome_iff_exists.1 (isSome_card?.2 ⟨c, hc, rfl⟩)
  obtain ⟨hmem, hid⟩ := card?_eq_some hc'
  rw [hc', hs.card_eq_of_id_eq hmem hc hid]

theorem background?_eq (hs : s.Orderly) (hb : b ∈ s.backgrounds) :
    s.background? b.id = some b := by
  have hsome : (s.background? b.id).isSome := List.find?_isSome.2 ⟨b, hb, beq_self_eq_true _⟩
  obtain ⟨b', hb'⟩ := Option.isSome_iff_exists.1 hsome
  obtain ⟨hmem, hid⟩ := background?_eq_some hb'
  rw [hb', hs.background_eq_of_id_eq hmem hb hid]

theorem part?_eq (hs : s.Orderly) (hp : p ∈ s.allParts) : s.part? p.id = some p := by
  have hsome : (s.part? p.id).isSome := List.find?_isSome.2 ⟨p, hp, beq_self_eq_true _⟩
  obtain ⟨p', hp'⟩ := Option.isSome_iff_exists.1 hsome
  obtain ⟨hmem, hid⟩ := part?_eq_some hp'
  rw [hp', hs.part_eq_of_id_eq hmem hp hid]

end Orderly

end Stack

/-! ## Outlines -/

/-- What part it is and where it lies. -/
def Part.outline (p : Part) : Part :=
  { id := p.id, kind := p.kind, layer := p.layer, owner := p.owner }

def Card.outline (c : Card) : Card :=
  { id := c.id, background := c.background, parts := c.parts.map (·.outline) }

def Background.outline (b : Background) : Background :=
  { id := b.id, parts := b.parts.map (·.outline) }

theorem Part.of_outline_eq {p q : Part} (h : p.outline = q.outline) :
    p.id = q.id ∧ p.kind = q.kind ∧ p.layer = q.layer ∧ p.owner = q.owner := by
  simpa [Part.outline] using h

theorem Card.of_outline_eq {c c' : Card} (h : c.outline = c'.outline) :
    c.id = c'.id ∧ c.background = c'.background := by
  simp only [Card.outline, Card.mk.injEq] at h
  exact ⟨h.1, h.2.1⟩

theorem Background.of_outline_eq {b b' : Background} (h : b.outline = b'.outline) :
    b.id = b'.id := by
  simp only [Background.outline, Background.mk.injEq] at h
  exact h.1

@[simp] theorem Card.ids_outline (c : Card) : c.outline.ids = c.ids := by
  simp [Card.ids, Card.outline, Part.outline]

@[simp] theorem Background.ids_outline (b : Background) : b.outline.ids = b.ids := by
  simp [Background.ids, Background.outline, Part.outline]

namespace Stack

/-- The stack without what scripts can write to it. -/
def outline (s : Stack) : Stack :=
  { nextId := s.nextId
    cards := s.cards.map (·.outline)
    backgrounds := s.backgrounds.map (·.outline)
    currentCard := s.currentCard }

variable {s t : Stack}

@[simp] theorem ids_outline (s : Stack) : s.outline.ids = s.ids := by
  simp [ids, outline, List.flatMap_map]

theorem orderly_outline : s.outline.Orderly ↔ s.Orderly := by
  rw [orderly_iff, orderly_iff, ids_outline]
  simp [outline, Card.outline, Background.outline, Part.outline]

theorem Orderly.of_outline_eq (hs : s.Orderly) (h : t.outline = s.outline) : t.Orderly :=
  orderly_outline.1 (h ▸ orderly_outline.2 hs)

theorem Coherent.of_outline_eq (hs : s.Coherent) (h : t.outline = s.outline) : t.Coherent := by
  refine ⟨hs.toOrderly.of_outline_eq h, ?_⟩
  have hcurrent : ∃ c ∈ t.outline.cards, c.id = t.outline.currentCard := by
    rw [h]
    simpa [outline, Card.outline] using hs.current_mem
  simpa [outline, Card.outline] using hcurrent

end Stack

/-! ## Writing -/

theorem Part.outline_setText {p q : Part} (h : p.setText card value = .ok q) :
    q.outline = p.outline := by
  have hshared (h : p.setSharedText value = .ok q) : q.outline = p.outline := by
    obtain ⟨table, _, h⟩ := Failure.bind_eq_ok.1 h
    cases h
    rfl
  rw [Part.setText_eq] at h
  split at h
  · split at h
    · cases h
      rfl
    · exact hshared h
  · exact hshared h

namespace Stack

variable {s t : Stack}

theorem outline_replacePart {q : Part} (parts : List Part)
    (h : ∀ p ∈ parts, p.id = q.id → p.outline = q.outline) :
    (replacePart q parts).map (·.outline) = parts.map (·.outline) := by
  rw [replacePart, List.map_map]
  refine List.map_congr_left fun p hp => ?_
  simp only [Function.comp]
  split
  next heq => exact (h p hp (eq_of_beq heq)).symm
  next => rfl

namespace Orderly

/-- Identifiers are distinct, so only the part itself is replaced. -/
theorem outline_withPart (hs : s.Orderly) {p q : Part} (hp : p ∈ s.allParts)
    (h : q.outline = p.outline) : (s.withPart q).outline = s.outline := by
  obtain ⟨hid, _⟩ := Part.of_outline_eq h
  have hparts : ∀ r ∈ s.allParts, r.id = q.id → r.outline = q.outline := fun r hr hrq => by
    rw [hs.part_eq_of_id_eq hr hp (hrq.trans hid), h]
  simp only [outline, withPart, List.map_map, Stack.mk.injEq, true_and, and_true]
  constructor
  · refine List.map_congr_left fun c hc => ?_
    have hc := outline_replacePart c.parts fun r hr => hparts r (mem_allParts.2 (.inl ⟨c, hc, hr⟩))
    simp only [Function.comp, Card.outline, hc]
  · refine List.map_congr_left fun b hb => ?_
    have hb := outline_replacePart b.parts fun r hr => hparts r (mem_allParts.2 (.inr ⟨b, hb, hr⟩))
    simp only [Function.comp, Background.outline, hb]

theorem outline_withCard (hs : s.Orderly) {c c' : Card} (hc : c ∈ s.cards)
    (h : c'.outline = c.outline) : (s.withCard c').outline = s.outline := by
  obtain ⟨hid, _⟩ := Card.of_outline_eq h
  simp only [outline, withCard, List.map_map, Stack.mk.injEq, true_and, and_true]
  refine List.map_congr_left fun d hd => ?_
  simp only [Function.comp]
  split
  next heq => rw [hs.card_eq_of_id_eq hd hc ((eq_of_beq heq).trans hid), h]
  next => rfl

theorem outline_withBackground (hs : s.Orderly) {b b' : Background} (hb : b ∈ s.backgrounds)
    (h : b'.outline = b.outline) : (s.withBackground b').outline = s.outline := by
  have hid := Background.of_outline_eq h
  simp only [outline, withBackground, List.map_map, Stack.mk.injEq, true_and, and_true]
  refine List.map_congr_left fun d hd => ?_
  simp only [Function.comp]
  split
  next heq => rw [hs.background_eq_of_id_eq hd hb ((eq_of_beq heq).trans hid), h]
  next => rfl

end Orderly

/-! ## Adding and removing -/

/-- Distinct identifiers that were given out between two states of the counter. -/
structure Fresh (ids : List PartId) (first next : PartId) : Prop where
  nodup : ids.Nodup
  bounds : ∀ id ∈ ids, first ≤ id ∧ id < next

theorem Fresh.singleton {id next : PartId} (h : id < next) : Fresh [id] id next :=
  ⟨List.nodup_singleton id, by simpa using h⟩

theorem Orderly.ids_of_fresh (hs : s.Orderly) {new : List PartId}
    (hids : t.ids.Perm (new ++ s.ids)) (hnew : Fresh new s.nextId t.nextId)
    (hne : new ≠ []) : t.ids.Nodup ∧ ∀ id ∈ t.ids, id < t.nextId := by
  constructor
  · refine hids.nodup_iff.2 (hnew.nodup.append hs.ids_nodup fun id hid hid' => ?_)
    exact Nat.not_lt_of_le (hnew.bounds id hid).1 (hs.ids_lt id hid')
  · intro id hid
    rcases List.mem_append.1 (hids.mem_iff.1 hid) with hid | hid
    · exact (hnew.bounds id hid).2
    · obtain ⟨k, hk⟩ := List.exists_mem_of_ne_nil new hne
      have hlt : s.nextId < t.nextId := Nat.lt_of_le_of_lt (hnew.bounds k hk).1 (hnew.bounds k hk).2
      exact Nat.lt_trans (hs.ids_lt id hid) hlt

theorem Orderly.addCard (hs : s.Orderly) {card : Card}
    (hcards : t.cards.Perm (card :: s.cards)) (hbackgrounds : t.backgrounds = s.backgrounds)
    (hfresh : Fresh card.ids s.nextId t.nextId)
    (hon : ∃ b ∈ s.backgrounds, b.id = card.background)
    (hparts : ∀ p ∈ card.parts, p.layer = .card ∧ p.owner = card.id) : t.Orderly := by
  have hids : t.ids.Perm (card.ids ++ s.ids) := by
    simp only [ids, hbackgrounds, ← List.append_assoc]
    exact (hcards.flatMap_right _).append_right _
  obtain ⟨hnodup, hlt⟩ := hs.ids_of_fresh hids hfresh (List.cons_ne_nil _ _)
  refine ⟨hnodup, hlt, fun c hc => ?_, fun c hc => ?_, hbackgrounds ▸ hs.background_parts⟩
  · rw [hbackgrounds]
    rcases List.mem_cons.1 (hcards.mem_iff.1 hc) with rfl | hc
    · exact hon
    · exact hs.background_mem c hc
  · rcases List.mem_cons.1 (hcards.mem_iff.1 hc) with rfl | hc
    · exact hparts
    · exact hs.card_parts c hc

theorem Orderly.addBackground (hs : s.Orderly) {background : Background}
    (hcards : t.cards = s.cards) (hbackgrounds : t.backgrounds = s.backgrounds ++ [background])
    (hfresh : Fresh background.ids s.nextId t.nextId)
    (hparts : ∀ p ∈ background.parts, p.layer = .background ∧ p.owner = background.id) :
    t.Orderly := by
  have hids : t.ids.Perm (background.ids ++ s.ids) := by
    simp only [ids, hcards, hbackgrounds, List.flatMap_append, List.flatMap_singleton]
    rw [← List.append_assoc]
    exact List.perm_append_comm
  obtain ⟨hnodup, hlt⟩ := hs.ids_of_fresh hids hfresh (List.cons_ne_nil _ _)
  refine ⟨hnodup, hlt, fun c hc => ?_, hcards ▸ hs.card_parts, fun b hb => ?_⟩
  · obtain ⟨b, hb, hcb⟩ := hs.background_mem c (hcards ▸ hc)
    exact ⟨b, hbackgrounds ▸ List.mem_append_left _ hb, hcb⟩
  · rw [hbackgrounds] at hb
    rcases List.mem_append.1 hb with hb | hb
    · exact hs.background_parts b hb
    · cases List.mem_singleton.1 hb
      exact hparts

end Stack

end CardScript
