import CardScript.Proofs.Script.Course
import CardScript.Proofs.Stack.Opening

/-!
# Runs of edits

An `Edit` is a change of the row of cards of a stack. Every edit keeps a stack coherent, keeps a
background as long as a card lies on it (`Stack.BackgroundsKept`), and gives out identifiers that
were never in use: whatever lies in a later stack was there before or is new altogether
(`Stack.Precedes`). `Stack.Coherent.edit` says so of one edit, whether or not it succeeds, and
runs of edits follow by induction.
-/

namespace CardScript

/-- A change of the row of cards of a stack. -/
inductive Edit where
  | newCard
  | newBackground
  | deleteCard (id : PartId)
  | showCard (id : PartId)

namespace Edit

/-- How the edit is carried out. -/
def run : Edit → Editing Stack Unit
  | newCard => discard Stack.addingCard
  | newBackground => modify (·.newBackground.2)
  | deleteCard id => Stack.removingCard id
  | showCard id => Stack.showingCard id

/-- The stack that the edit gives, unless it fails. -/
def apply (e : Edit) (s : Stack) : Except Failure Stack :=
  e.run.result s

/-- When an edit succeeds: a card can be removed unless it is the only one. -/
def Allowed (s : Stack) : Edit → Prop
  | newCard | newBackground => True
  | deleteCard id => (s.card? id).isSome ∧ s.cards.length ≠ 1
  | showCard id => (s.card? id).isSome

/-- What an edit that succeeds does to the cards. A new card is shown; it lies on a background in
use or on one of its own. -/
def Done (s t : Stack) : Edit → Prop
  | newCard => ∃ c, t.cards.Perm (c :: s.cards) ∧ t.currentCard = c.id ∧
      s.cardsOf c.background ≠ []
  | newBackground => ∃ c, t.cards.Perm (c :: s.cards) ∧ t.currentCard = c.id ∧
      s.cardsOf c.background = []
  | deleteCard id => ∃ c, s.cards.Perm (c :: t.cards) ∧ c.id = id
  | showCard id => t.cards = s.cards ∧ t.currentCard = id

/-- The stack that the edit leaves, whether or not it succeeds. -/
def after (e : Edit) (s : Stack) : Stack :=
  match e.run s with
  | .ok _ t | .error _ t => t

/-- Every edit makes its checks before it changes anything. -/
theorem run_atomic (e : Edit) : e.run.Atomic := by
  cases e with
  | newCard => exact Stack.addingCard_atomic.bind_total fun _ => Editing.pure_total _
  | newBackground => exact (Editing.modify_total _).atomic
  | deleteCard id => exact Stack.removingCard_atomic id
  | showCard id => exact Stack.showingCard_atomic id

theorem apply_newCard {s t : Stack} : newCard.apply s = .ok t ↔ ∃ id, s.newCard = .ok (id, t) := by
  have happly : newCard.apply s = do return (← s.newCard).2 := Editing.result_discard ..
  rw [happly]
  cases s.newCard with
  | ok made =>
    constructor
    · rintro ⟨⟩
      exact ⟨made.1, rfl⟩
    · rintro ⟨id, ⟨⟩⟩
      rfl
  | error f => exact ⟨nofun, nofun⟩

theorem after_eq (e : Edit) (s : Stack) : e.after s = (e.apply s).toOption.getD s := by
  rw [after, apply, Editing.result]
  cases h : e.run s with
  | ok _ t => rfl
  | error f t => rw [e.run_atomic h]; rfl

end Edit

namespace Stack

/-- The stack after a run of edits, whether or not they succeed. -/
def after (s : Stack) (edits : List Edit) : Stack :=
  edits.foldl (fun s e => e.after s) s

theorem after_append (s : Stack) (edits later : List Edit) :
    s.after (edits ++ later) = (s.after edits).after later :=
  List.foldl_append

/-- What one edit keeps holds after every run of them. -/
theorem after_induction {P : Stack → Prop} (step : ∀ s (e : Edit), P s → P (e.after s))
    {s : Stack} (hs : P s) (edits : List Edit) : P (s.after edits) := by
  induction edits generalizing s with
  | nil => exact hs
  | cons e edits ih => exact ih (step s e hs)

variable {s t u : Stack}

/-! ## Earlier and later stacks -/

/-- An earlier state of a stack: what lies in the later one lay there before, or bears identifiers
that had not been given out. -/
structure Precedes (s t : Stack) : Prop where
  nextId_le : s.nextId ≤ t.nextId
  cards : ∀ c ∈ t.cards,
    (∃ c₀ ∈ s.cards, c₀.outline = c.outline) ∨ ∀ id ∈ c.ids, s.nextId ≤ id
  backgrounds : ∀ b ∈ t.backgrounds,
    (∃ b₀ ∈ s.backgrounds, b₀.outline = b.outline) ∨ ∀ id ∈ b.ids, s.nextId ≤ id

namespace Precedes

theorem of_subset (hnext : s.nextId ≤ t.nextId) (hcards : t.cards ⊆ s.cards)
    (hbackgrounds : t.backgrounds ⊆ s.backgrounds) : s.Precedes t where
  nextId_le := hnext
  cards c hc := .inl ⟨c, hcards hc, rfl⟩
  backgrounds b hb := .inl ⟨b, hbackgrounds hb, rfl⟩

theorem refl : s.Precedes s :=
  of_subset (Nat.le_refl _) (List.Subset.refl _) (List.Subset.refl _)

theorem trans (hst : s.Precedes t) (htu : t.Precedes u) : s.Precedes u where
  nextId_le := Nat.le_trans hst.nextId_le htu.nextId_le
  cards c hc := by
    rcases htu.cards c hc with ⟨c₁, hc₁, heq₁⟩ | hfresh
    · rcases hst.cards c₁ hc₁ with ⟨c₀, hc₀, heq₀⟩ | hfresh
      · exact .inl ⟨c₀, hc₀, heq₀.trans heq₁⟩
      · rw [← Card.ids_outline, heq₁, Card.ids_outline] at hfresh
        exact .inr hfresh
    · exact .inr fun id hid => Nat.le_trans hst.nextId_le (hfresh id hid)
  backgrounds b hb := by
    rcases htu.backgrounds b hb with ⟨b₁, hb₁, heq₁⟩ | hfresh
    · rcases hst.backgrounds b₁ hb₁ with ⟨b₀, hb₀, heq₀⟩ | hfresh
      · exact .inl ⟨b₀, hb₀, heq₀.trans heq₁⟩
      · rw [← Background.ids_outline, heq₁, Background.ids_outline] at hfresh
        exact .inr hfresh
    · exact .inr fun id hid => Nat.le_trans hst.nextId_le (hfresh id hid)

theorem mem_ids {id : PartId} (h : s.Precedes t) (hid : id ∈ t.ids) :
    id ∈ s.ids ∨ s.nextId ≤ id := by
  rcases Stack.mem_ids.1 hid with ⟨c, hc, hid⟩ | ⟨b, hb, hid⟩
  · rcases h.cards c hc with ⟨c₀, hc₀, heq⟩ | hfresh
    · rw [← Card.ids_outline, ← heq, Card.ids_outline] at hid
      exact .inl (mem_ids_of_card hc₀ hid)
    · exact .inr (hfresh id hid)
  · rcases h.backgrounds b hb with ⟨b₀, hb₀, heq⟩ | hfresh
    · rw [← Background.ids_outline, ← heq, Background.ids_outline] at hid
      exact .inl (mem_ids_of_background hb₀ hid)
    · exact .inr (hfresh id hid)

/-- An identifier that has gone out of use does not come back. -/
theorem not_mem_ids {id : PartId} (hs : s.Orderly) (hst : s.Precedes t) (htu : t.Precedes u)
    (hid : id ∈ s.ids) (hgone : id ∉ t.ids) : id ∉ u.ids := by
  intro hback
  rcases htu.mem_ids hback with hmem | hfresh
  · exact hgone hmem
  · have hlt := Nat.lt_of_lt_of_le (hs.ids_lt id hid) hst.nextId_le
    exact Nat.not_lt_of_le hfresh hlt

end Precedes

/-- A background goes with its last card, and only then. -/
structure BackgroundsKept (s t : Stack) : Prop where
  kept : ∀ b ∈ s.backgrounds,
    (s.cardsOf b.id ≠ [] → t.cardsOf b.id ≠ []) → b ∈ t.backgrounds
  removed : ∀ b ∈ s.backgrounds,
    s.cardsOf b.id ≠ [] → t.cardsOf b.id = [] → t.background? b.id = none

theorem cardsOf_eq_nil {background : PartId} :
    s.cardsOf background = [] ↔ ∀ c ∈ s.cards, c.background ≠ background := by
  simp [cardsOf]

theorem BackgroundsKept.of_subset (hcards : s.cards ⊆ t.cards)
    (hbackgrounds : s.backgrounds ⊆ t.backgrounds) : s.BackgroundsKept t where
  kept _ hb _ := hbackgrounds hb
  removed b hb hbefore hafter := by
    refine absurd (cardsOf_eq_nil.2 fun c hc => ?_) hbefore
    exact cardsOf_eq_nil.1 hafter c (hcards hc)

/-! ## What edits do -/

theorem cards_insertAfterCurrent (s : Stack) (card : Card) :
    (s.insertAfterCurrent card).cards.Perm (card :: s.cards) := by
  refine List.perm_insertIdx card s.cards ?_
  split
  next i hi =>
    obtain ⟨hlt, _⟩ := List.findIdx?_eq_some_iff_getElem.1 hi
    exact hlt
  next => exact Nat.le_refl _

theorem subset_insertAfterCurrent (s : Stack) (card : Card) :
    s.cards ⊆ (s.insertAfterCurrent card).cards :=
  fun _ hc => (cards_insertAfterCurrent s card).mem_iff.2 (List.mem_cons_of_mem _ hc)

/-- The stack without one of its cards. -/
structure Removal (s : Stack) (removed : Card) (t : Stack) : Prop where
  nextId_eq : t.nextId = s.nextId
  cards_perm : s.cards.Perm (removed :: t.cards)
  cards_sublist : t.cards.Sublist s.cards
  backgrounds_eq : t.backgrounds =
    if t.cardsOf removed.background = [] then s.backgrounds.filter (·.id != removed.background)
    else s.backgrounds
  current : t.currentCard = s.currentCard ∧ s.currentCard ≠ removed.id ∨
    ∃ c ∈ t.cards, c.id = t.currentCard

theorem deleteCard_eq_ok {id : PartId} (h : s.deleteCard id = .ok t) :
    ∃ removed, removed.id = id ∧ s.Removal removed t := by
  rw [deleteCard_eq] at h
  split at h
  next i removed hi hremoved =>
    split at h
    · cases h
    next hlength =>
    cases h
    obtain ⟨_, hid⟩ := card?_eq_some hremoved
    rw [card?_eq_getElem? hi] at hremoved
    obtain ⟨hlt, hget⟩ := List.getElem?_eq_some_iff.1 hremoved
    have hne : (s.cards.eraseIdx i).length ≠ 0 := by
      have hlength : s.cards.length ≠ 1 := fun h => hlength (beq_iff_eq.2 h)
      rw [List.length_eraseIdx_of_lt hlt]
      omega
    refine ⟨removed, hid, rfl, ?_, List.eraseIdx_sublist .., ?_, ?_⟩
    · rw [← hget]
      exact (List.getElem_cons_eraseIdx_perm hlt).symm
    · simp [cardsOf]
    · dsimp only
      split
      next =>
        have hnext : min i ((s.cards.eraseIdx i).length - 1) < (s.cards.eraseIdx i).length := by
          omega
        rw [List.getElem?_eq_getElem hnext]
        exact .inr ⟨_, List.getElem_mem hnext, rfl⟩
      next hcurrent =>
        exact .inl ⟨rfl, fun h => hcurrent (beq_iff_eq.2 (h.trans hid))⟩
  next => cases h

namespace Removal

variable {removed : Card}

theorem backgrounds_sublist (h : s.Removal removed t) : t.backgrounds.Sublist s.backgrounds := by
  rw [h.backgrounds_eq]
  split
  · exact List.filter_sublist
  · exact List.Sublist.refl _

/-- The background of the removed card goes unless another card lies on it. -/
theorem mem_backgrounds (h : s.Removal removed t) {b : Background} :
    b ∈ t.backgrounds ↔
      b ∈ s.backgrounds ∧ (b.id = removed.background → t.cardsOf removed.background ≠ []) := by
  rw [h.backgrounds_eq]
  split
  next hnil => simp [hnil]
  next hne => simp [hne]

theorem coherent (hs : s.Coherent) (h : s.Removal removed t) : t.Coherent := by
  have hsub : t.ids.Sublist s.ids :=
    (h.cards_sublist.flatMap _).append (h.backgrounds_sublist.flatMap _)
  refine ⟨⟨hs.ids_nodup.sublist hsub, fun id hid => ?_, fun c hc => ?_, fun c hc => ?_,
    fun b hb => ?_⟩, ?_⟩
  · rw [h.nextId_eq]
    exact hs.ids_lt id (hsub.subset hid)
  · obtain ⟨b, hb, hcb⟩ := hs.background_mem c (h.cards_sublist.subset hc)
    refine ⟨b, h.mem_backgrounds.2 ⟨hb, fun hremoved hnil => ?_⟩, hcb⟩
    exact cardsOf_eq_nil.1 hnil c hc (hcb.symm.trans hremoved)
  · exact hs.card_parts c (h.cards_sublist.subset hc)
  · exact hs.background_parts b (h.backgrounds_sublist.subset hb)
  · rcases h.current with ⟨heq, hne⟩ | hcurrent
    · obtain ⟨c, hc, hid⟩ := hs.current_mem
      rcases List.mem_cons.1 (h.cards_perm.mem_iff.1 hc) with rfl | hc
      · exact absurd hid.symm hne
      · exact ⟨c, hc, hid.trans heq.symm⟩
    · exact hcurrent

theorem precedes (h : s.Removal removed t) : s.Precedes t :=
  .of_subset (Nat.le_of_eq h.nextId_eq.symm) h.cards_sublist.subset h.backgrounds_sublist.subset

theorem backgroundsKept (h : s.Removal removed t) : s.BackgroundsKept t where
  kept b hb hcards := by
    refine h.mem_backgrounds.2 ⟨hb, fun hremoved => ?_⟩
    rw [← hremoved]
    refine hcards fun hnil => ?_
    exact cardsOf_eq_nil.1 hnil removed (h.cards_perm.mem_iff.2 List.mem_cons_self) hremoved.symm
  removed b hb hbefore hafter := by
    -- The only card on `b` was the removed one.
    have hremoved : b.id = removed.background := by
      false_or_by_contra
      rename_i hne
      refine hbefore (cardsOf_eq_nil.2 fun c hc => ?_)
      rcases List.mem_cons.1 (h.cards_perm.mem_iff.1 hc) with rfl | hc
      · exact fun heq => hne heq.symm
      · exact cardsOf_eq_nil.1 hafter c hc
    refine List.find?_eq_none.2 fun b' hb' hid => ?_
    have hid : b'.id = removed.background := (eq_of_beq hid).trans hremoved
    exact (h.mem_backgrounds.1 hb').2 hid (hremoved ▸ hafter)

end Removal

/-- A new card with an identifier that had not been given out. -/
theorem Orderly.insertAfterCurrent (hs : s.Orderly) (s₁ : Stack) (card : Card)
    (hcards : s₁.cards = s.cards) (hbackgrounds : s₁.backgrounds = s.backgrounds)
    (hparts : card.parts = []) (hlow : s.nextId ≤ card.id) (hhigh : card.id < s₁.nextId)
    (hon : ∃ b ∈ s.backgrounds, b.id = card.background) :
    (s₁.insertAfterCurrent card).Coherent ∧ s.Precedes (s₁.insertAfterCurrent card) := by
  have hperm := cards_insertAfterCurrent s₁ card
  have hids : card.ids = [card.id] := by rw [Card.ids, hparts, List.map_nil]
  constructor
  · refine ⟨hs.addCard (hcards ▸ hperm) hbackgrounds ?_ hon (by simp [hparts]), ?_⟩
    · rw [hids]
      exact ⟨List.nodup_singleton _, by simpa using ⟨hlow, hhigh⟩⟩
    · exact ⟨card, hperm.mem_iff.2 List.mem_cons_self, rfl⟩
  · refine ⟨Nat.le_of_lt (Nat.lt_of_le_of_lt hlow hhigh), fun c hc => ?_, fun b hb => ?_⟩
    · rcases List.mem_cons.1 (hperm.mem_iff.1 hc) with rfl | hc
      · exact .inr (by simpa [hids] using hlow)
      · exact .inl ⟨c, hcards ▸ hc, rfl⟩
    · exact .inl ⟨b, hbackgrounds ▸ hb, rfl⟩

/-! ## Runs -/

/-- What one edit of a coherent stack leaves. -/
structure Edited (s t : Stack) : Prop where
  coherent : t.Coherent
  precedes : s.Precedes t
  backgroundsKept : s.BackgroundsKept t

theorem Coherent.newCard (hs : s.Coherent) {id : PartId} (h : s.newCard = .ok (id, t)) :
    s.Edited t := by
  obtain ⟨current, hcurrent, -, rfl⟩ := newCard_eq_ok h
  obtain ⟨hmem, _⟩ := card?_eq_some hcurrent
  obtain ⟨hcoherent, hprecedes⟩ :=
    hs.toOrderly.insertAfterCurrent { s with nextId := s.nextId + 1 }
      (.blank s.nextId current.background "" {}) rfl rfl rfl (Nat.le_refl _)
      (Nat.lt_succ_self _) (hs.background_mem current hmem)
  refine ⟨hcoherent, hprecedes, .of_subset ?_ (List.Subset.refl _)⟩
  exact subset_insertAfterCurrent { s with nextId := s.nextId + 1 } _

theorem Coherent.newBackground (hs : s.Coherent) : s.Edited s.newBackground.2 := by
  let background := Background.blank s.nextId "" {}
  let s₁ : Stack :=
    { s with nextId := s.nextId + 1, backgrounds := s.backgrounds ++ [background] }
  have hfresh : Fresh background.ids s.nextId (s.nextId + 1) :=
    .singleton (Nat.lt_succ_self s.nextId)
  have hs₁ : s₁.Orderly :=
    hs.toOrderly.addBackground rfl rfl hfresh fun _ hp => nomatch hp
  have hmem : background ∈ s₁.backgrounds := List.mem_append_right _ List.mem_cons_self
  have hle : s.Precedes s₁ := by
    refine ⟨Nat.le_succ _, fun c hc => .inl ⟨c, hc, rfl⟩, fun b hb => ?_⟩
    rcases List.mem_append.1 hb with hb | hb
    · exact .inl ⟨b, hb, rfl⟩
    · cases List.mem_singleton.1 hb
      exact .inr fun id hid => (hfresh.bounds id hid).1
  obtain ⟨hcoherent, hprecedes⟩ :=
    hs₁.insertAfterCurrent { s₁ with nextId := s.nextId + 1 + 1 }
      (.blank (s.nextId + 1) s.nextId "" {}) rfl rfl rfl (Nat.le_refl _)
      (Nat.lt_succ_self _) ⟨background, hmem, rfl⟩
  refine ⟨hcoherent, hle.trans hprecedes, .of_subset ?_ (List.subset_append_left ..)⟩
  exact subset_insertAfterCurrent { s₁ with nextId := s.nextId + 1 + 1 } _

theorem Coherent.deleteCard (hs : s.Coherent) {id : PartId} (h : s.deleteCard id = .ok t) :
    s.Edited t := by
  obtain ⟨removed, _, h⟩ := deleteCard_eq_ok h
  exact ⟨h.coherent hs, h.precedes, h.backgroundsKept⟩

theorem Coherent.showCard (hs : s.Coherent) {id : PartId} (h : s.showCard id = .ok t) :
    s.Edited t := by
  obtain ⟨hsome, rfl⟩ := showCard_eq_ok h
  refine ⟨⟨hs.toOrderly.congr rfl rfl rfl, isSome_card?.1 hsome⟩, ?_, ?_⟩
  · exact .of_subset (Nat.le_refl _) (List.Subset.refl _) (List.Subset.refl _)
  · exact .of_subset (List.Subset.refl _) (List.Subset.refl _)

theorem Coherent.apply (hs : s.Coherent) {e : Edit} (h : e.apply s = .ok t) : s.Edited t := by
  cases e with
  | newCard =>
    obtain ⟨id, hnew⟩ := Edit.apply_newCard.1 h
    exact hs.newCard hnew
  | newBackground =>
    cases h
    exact hs.newBackground
  | deleteCard id => exact hs.deleteCard h
  | showCard id => exact hs.showCard h

/-- One edit gives out two identifiers at most: a background comes with a card. -/
theorem nextId_apply_le {e : Edit} (h : e.apply s = .ok t) : t.nextId ≤ s.nextId + 2 := by
  cases e with
  | newCard =>
    obtain ⟨id, hnew⟩ := Edit.apply_newCard.1 h
    obtain ⟨current, -, -, rfl⟩ := newCard_eq_ok hnew
    exact Nat.le_succ _
  | newBackground =>
    cases h
    exact Nat.le_refl _
  | deleteCard id =>
    obtain ⟨removed, -, h⟩ := deleteCard_eq_ok h
    exact Nat.le_trans (Nat.le_of_eq h.nextId_eq) (Nat.le_add_right ..)
  | showCard id =>
    obtain ⟨-, rfl⟩ := showCard_eq_ok h
    exact Nat.le_add_right ..

theorem deleteCard_allowed {id : PartId} :
    (∃ t, s.deleteCard id = .ok t) ↔ (s.card? id).isSome ∧ s.cards.length ≠ 1 := by
  rw [deleteCard_eq]
  split
  next i removed _ hremoved =>
    split
    next hlength =>
      constructor
      · rintro ⟨_, ⟨⟩⟩
      · rintro ⟨_, hne⟩
        exact absurd (beq_iff_eq.1 hlength) hne
    next hlength =>
      refine ⟨fun _ => ⟨by rw [hremoved]; rfl, fun h => ?_⟩, fun _ => ⟨_, rfl⟩⟩
      exact hlength (beq_iff_eq.2 h)
  next hnone =>
    constructor
    · rintro ⟨_, ⟨⟩⟩
    · rintro ⟨hsome, _⟩
      obtain ⟨c, hc⟩ := Option.isSome_iff_exists.1 hsome
      obtain ⟨i, hi⟩ := cardIndex?_of_card? hc
      exact (hnone i c hi hc).elim

theorem Coherent.allowed (hs : s.Coherent) (e : Edit) :
    (∃ t, e.apply s = .ok t) ↔ e.Allowed s := by
  cases e with
  | newCard =>
    refine ⟨fun _ => trivial, fun _ => ?_⟩
    obtain ⟨c, hc⟩ := Option.isSome_iff_exists.1 (isSome_card?.2 hs.current_mem)
    exact ⟨_, Edit.apply_newCard.2 ⟨s.nextId, by rw [newCard_eq, hc]⟩⟩
  | newBackground => exact ⟨fun _ => trivial, fun _ => ⟨_, rfl⟩⟩
  | deleteCard id => exact deleteCard_allowed
  | showCard id =>
    change (∃ t, s.showCard id = .ok t) ↔ _
    rw [Stack.showCard_eq]
    split
    next hsome => exact ⟨fun _ => hsome, fun _ => ⟨_, rfl⟩⟩
    next hnone =>
      constructor
      · rintro ⟨_, ⟨⟩⟩
      · exact fun hsome => absurd hsome hnone

theorem Coherent.done (hs : s.Coherent) {e : Edit} (h : e.apply s = .ok t) : e.Done s t := by
  cases e with
  | newCard =>
    obtain ⟨id, hnew⟩ := Edit.apply_newCard.1 h
    obtain ⟨current, hcurrent, -, rfl⟩ := newCard_eq_ok hnew
    refine ⟨_, cards_insertAfterCurrent .., rfl, fun hnil => ?_⟩
    exact cardsOf_eq_nil.1 hnil current (card?_eq_some hcurrent).1 rfl
  | newBackground =>
    cases h
    refine ⟨_, cards_insertAfterCurrent .., rfl, cardsOf_eq_nil.2 fun c hc hfresh => ?_⟩
    obtain ⟨b, hb, hon⟩ := hs.background_mem c hc
    have hlt := hs.ids_lt b.id (mem_ids_of_background hb List.mem_cons_self)
    exact Nat.lt_irrefl _ (hon.trans hfresh ▸ hlt)
  | deleteCard id =>
    obtain ⟨removed, hid, h⟩ := deleteCard_eq_ok h
    exact ⟨removed, h.cards_perm, hid⟩
  | showCard id =>
    obtain ⟨-, rfl⟩ := showCard_eq_ok h
    exact ⟨rfl, rfl⟩

theorem Coherent.edit (hs : s.Coherent) (e : Edit) : s.Edited (e.after s) := by
  rw [Edit.after_eq]
  cases h : e.apply s with
  | ok t => exact hs.apply h
  | error f => exact ⟨hs, .refl, .of_subset (List.Subset.refl _) (List.Subset.refl _)⟩

theorem Coherent.after (hs : s.Coherent) (edits : List Edit) : (s.after edits).Coherent :=
  after_induction (fun _ e hs => (hs.edit e).coherent) hs edits

theorem Coherent.precedes_after (hs : s.Coherent) (edits : List Edit) :
    s.Precedes (s.after edits) := by
  refine (after_induction (P := fun t => t.Coherent ∧ s.Precedes t) ?_ ⟨hs, .refl⟩ edits).2
  rintro t e ⟨ht, hst⟩
  exact ⟨(ht.edit e).coherent, hst.trans (ht.edit e).precedes⟩

/-- Stacks that were opened and then edited in whatever way: they are coherent, a background goes
with its last card and not before, identifiers are not used again, and an edit that fails changes
nothing, neither in the stack nor in the machine that runs it. Edits fail only when they must. -/
theorem edits_invariant (snapshot : StackSnapshot) (h : snapshot.toStack = .ok s)
    (edits : List Edit) :
    (s.after edits).cards ≠ [] ∧
    (s.after edits).Coherent ∧
    (∀ e : Edit, (s.after edits).BackgroundsKept (e.after (s.after edits))) ∧
    (∀ later, (s.after edits).Precedes (s.after (edits ++ later))) ∧
    (∀ between later, ∀ id ∈ (s.after edits).ids, id ∉ (s.after (edits ++ between)).ids →
      id ∉ (s.after (edits ++ between ++ later)).ids) ∧
    (∀ e : Edit, (∃ t, e.apply (s.after edits) = .ok t) ↔ e.Allowed (s.after edits)) ∧
    (∀ (e : Edit) t, e.apply (s.after edits) = .ok t → e.Done (s.after edits) t) ∧
    ∀ (e : Edit) f t, e.run (s.after edits) = .error f t →
      t = s.after edits ∧
      ∀ (m : Machine) number, m.world.stack number = s.after edits →
        editStack number e.run m = .error (.failed { failure := f }) m := by
  have hs := (StackSnapshot.toStack_coherent h).after edits
  refine ⟨hs.cards_ne_nil, hs, fun e => (hs.edit e).backgroundsKept, fun later => ?_,
    fun between later id hid hgone => ?_, hs.allowed, fun _ _ => hs.done,
    fun e f t he => ⟨e.run_atomic he, fun m number hm => ?_⟩⟩
  · rw [after_append]
    exact hs.precedes_after later
  · simp only [after_append] at hgone ⊢
    exact (hs.precedes_after between).not_mem_ids hs.toOrderly
      ((hs.after between).precedes_after later) hid hgone
  · rw [editStack_apply e.run_atomic, hm, Editing.outcome, he]

theorem edits_invariant_twoCards :
    ∃ s, StackSnapshot.twoCards.toStack = .ok s ∧
      (s.after [.newCard, .deleteCard 105]).Coherent ∧
      105 ∈ s.ids ∧ ∀ later, 105 ∉ (s.after ([] ++ [.deleteCard 105] ++ later)).ids := by
  refine ⟨_, rfl, (edits_invariant .twoCards rfl _).2.1, by decide, fun later => ?_⟩
  have hids := (edits_invariant .twoCards rfl []).2.2.2.2.1
  exact hids [.deleteCard 105] later 105 (by decide) (by decide)

end Stack

end CardScript
