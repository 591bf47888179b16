import CardScript.Proofs.Part.Numbering

/-!
# The order of backgrounds

Backgrounds are counted in the order of their first cards, which is worked out from the row of cards
each time. A new card is put right behind the current one (`Stack.Insertion`). If it lies on the
same background, it is not the first card there, so that no background gets another place; and
whatever its background is, removing the card leads back to the cards and backgrounds there were.
-/

namespace CardScript

namespace Stack

variable {s t u : Stack} {i : Nat} {current new : Card}

/-! ## First occurrences -/

theorem firstOccurrences_pairwise (ids : List PartId) :
    (firstOccurrences ids).Pairwise fun id id' => ids.idxOf id < ids.idxOf id' := by
  induction ids with
  | nil => exact .nil
  | cons first rest ih =>
    have hother : ∀ id ∈ (firstOccurrences rest).filter (· != first),
        (first :: rest).idxOf id = rest.idxOf id + 1 := by
      intro id hid
      have hne : id ≠ first := by simpa using (List.mem_filter.1 hid).2
      exact List.idxOf_cons_ne rest hne.symm
    refine .cons (fun id hid => ?_) ((ih.filter _).imp_of_mem fun hid hid' hlt => ?_)
    · rw [List.idxOf_cons_self, hother id hid]
      exact Nat.succ_pos _
    · rw [hother _ hid, hother _ hid']
      exact Nat.succ_lt_succ hlt

/-- An identifier that is repeated at once adds nothing. -/
theorem firstOccurrences_insertIdx {ids : List PartId} {id : PartId} (h : ids[i]? = some id) :
    firstOccurrences (ids.insertIdx (i + 1) id) = firstOccurrences ids := by
  induction ids generalizing i with
  | nil => cases h
  | cons first rest ih =>
    cases i with
    | zero =>
      obtain rfl : first = id := Option.some.inj h
      show first :: (first :: (firstOccurrences rest).filter (· != first)).filter (· != first) =
        first :: (firstOccurrences rest).filter (· != first)
      simp
    | succ i =>
      rw [List.insertIdx_succ_cons, firstOccurrences, ih h, firstOccurrences]

/-! ## The order of first cards -/

/-- The place of the first card on a background. -/
def firstCardIndex (s : Stack) (b : Background) : Nat :=
  s.cards.findIdx (·.background == b.id)

theorem Orderly.mem_backgroundsInOrder_iff (hs : s.Orderly) {b : Background} :
    b ∈ s.backgroundsInOrder ↔ b ∈ s.backgrounds ∧ ∃ c ∈ s.cards, c.background = b.id := by
  refine ⟨Stack.mem_backgroundsInOrder, ?_⟩
  rintro ⟨hb, c, hc, hon⟩
  exact hs.mem_backgroundsInOrder hb hc hon

theorem backgroundsInOrder_pairwise (s : Stack) :
    s.backgroundsInOrder.Pairwise fun b b' => s.firstCardIndex b < s.firstCardIndex b' := by
  have hids := (firstOccurrences_pairwise (s.cards.map (·.background))).sublist
    (ids_filterMap_background? s _)
  refine (List.pairwise_map.1 hids).imp fun {b b'} hlt => ?_
  rw [List.idxOf, List.idxOf, List.findIdx_map, List.findIdx_map] at hlt
  exact hlt

theorem backgroundsInOrder_congr (hcards : t.cards = s.cards)
    (hbackgrounds : t.backgrounds = s.backgrounds) :
    t.backgroundsInOrder = s.backgroundsInOrder := by
  unfold backgroundsInOrder background?
  rw [hcards, hbackgrounds]

/-! ## A card behind the current one -/

theorem cards_insertAfterCurrent_of_index (h : s.cardIndex? s.currentCard = some i) (card : Card) :
    (s.insertAfterCurrent card).cards = s.cards.insertIdx (i + 1) card := by
  simp only [insertAfterCurrent, h]

theorem cards_deleteCard {id : PartId} (hi : s.cardIndex? id = some i)
    (h : s.deleteCard id = .ok t) : t.cards = s.cards.eraseIdx i := by
  rw [deleteCard_eq] at h
  rw [hi] at h
  cases hc : s.card? id with
  | none =>
    rw [hc] at h
    cases h
  | some removed =>
    rw [hc] at h
    dsimp only at h
    split at h
    · cases h
    · cases h
      rfl

/-- A new card behind the current one, which is at the place `i`. -/
structure Insertion (s : Stack) (i : Nat) (current new : Card) (t : Stack) : Prop where
  current_id : current.id = s.currentCard
  getElem?_current : s.cards[i]? = some current
  cards_eq : t.cards = s.cards.insertIdx (i + 1) new
  orderly : t.Orderly

namespace Insertion

theorem lt_length (h : s.Insertion i current new t) : i < s.cards.length :=
  (List.getElem?_eq_some_iff.1 h.getElem?_current).1

theorem current_mem (h : s.Insertion i current new t) : current ∈ s.cards :=
  List.mem_of_getElem? h.getElem?_current

theorem getElem?_new (h : s.Insertion i current new t) : t.cards[i + 1]? = some new := by
  rw [h.cards_eq, List.getElem?_insertIdx_self]
  exact if_pos h.lt_length

theorem numberOf_new (h : s.Insertion i current new t) :
    t.numberOf (.card new.id) = .ok (i + 1 + 1) :=
  h.orderly.numberOf_card h.getElem?_new

theorem numberOf_current (hs : s.Orderly) (h : s.Insertion i current new t) :
    s.numberOf (.card s.currentCard) = .ok (i + 1) := by
  rw [← h.current_id]
  exact hs.numberOf_card h.getElem?_current

/-- The cards up to the current one keep their places, those behind it move up by one. -/
theorem getElem?_moved (h : s.Insertion i current new t) (j : Nat) :
    t.cards[if i < j then j + 1 else j]? = s.cards[j]? := by
  rw [h.cards_eq]
  split
  next hlt => rw [List.getElem?_insertIdx_of_gt (by omega), Nat.add_sub_cancel]
  next hle => rw [List.getElem?_insertIdx_of_lt (by omega)]

theorem numberOf_moved (hs : s.Orderly) (h : s.Insertion i current new t) {c : Card}
    (hc : c ∈ s.cards) :
    ∃ n, s.numberOf (.card c.id) = .ok n ∧
      t.numberOf (.card c.id) = .ok (if i + 1 < n then n + 1 else n) := by
  obtain ⟨j, hj⟩ := List.mem_iff_getElem?.1 hc
  refine ⟨j + 1, hs.numberOf_card hj, ?_⟩
  rw [h.orderly.numberOf_card ((h.getElem?_moved j).trans hj)]
  split
  next hlt => rw [if_pos (Nat.succ_lt_succ hlt)]
  next hle => rw [if_neg (by omega)]

/-- Removing the new card leads back to the cards there were. -/
theorem exists_deleteCard (h : s.Insertion i current new t) :
    ∃ u, t.deleteCard new.id = .ok u ∧ u.cards = s.cards ∧ t.Removal new u := by
  have hindex : t.cardIndex? new.id = some (i + 1) :=
    Finding.findIdx?_of_getElem? h.orderly.cards_nodup h.getElem?_new
  have hfound : t.card? new.id = some new := (card?_eq_getElem? hindex).trans h.getElem?_new
  have hlength : t.cards.length ≠ 1 := by
    have hlt := (List.getElem?_eq_some_iff.1 h.getElem?_new).1
    omega
  obtain ⟨u, hu⟩ := deleteCard_allowed.2 ⟨Option.isSome_of_eq_some hfound, hlength⟩
  refine ⟨u, hu, ?_, ?_⟩
  · rw [cards_deleteCard hindex hu, h.cards_eq, List.eraseIdx_insertIdx_self]
  · obtain ⟨removed, hid, hremoval⟩ := deleteCard_eq_ok hu
    have hmem : removed ∈ t.cards := hremoval.cards_perm.mem_iff.2 List.mem_cons_self
    rwa [h.orderly.card_eq_of_id_eq hmem (List.mem_of_getElem? h.getElem?_new) hid] at hremoval

end Insertion

/-- Removing the card from `t` leads back to the cards and backgrounds of `s`, in their order. -/
def RestoredFrom (s t : Stack) (id : PartId) : Prop :=
  ∃ u, t.deleteCard id = .ok u ∧ u.cards = s.cards ∧ u.backgrounds = s.backgrounds ∧
    u.backgroundsInOrder = s.backgroundsInOrder

namespace Insertion

/-- The backgrounds are those there were once the background of the new card is gone, unless another
card lies on it. -/
theorem restoredFrom (h : s.Insertion i current new t)
    (hbackgrounds : s.backgrounds =
      if s.cardsOf new.background = [] then t.backgrounds.filter (·.id != new.background)
      else t.backgrounds) : s.RestoredFrom t new.id := by
  obtain ⟨u, hu, hcards, hremoval⟩ := h.exists_deleteCard
  have hsame : u.backgrounds = s.backgrounds := by
    rw [hremoval.backgrounds_eq, hbackgrounds, cardsOf, cardsOf, hcards]
  exact ⟨u, hu, hcards, hsame, backgroundsInOrder_congr hcards hsame⟩

/-- A card on the background of the card before it is not the first one there. -/
theorem backgroundsInOrder_eq (h : s.Insertion i current new t)
    (hon : new.background = current.background) (hbackgrounds : t.backgrounds = s.backgrounds) :
    t.backgroundsInOrder = s.backgroundsInOrder := by
  have hcurrent : (s.cards.map (·.background))[i]? = some current.background := by
    rw [List.getElem?_map, h.getElem?_current, Option.map_some]
  have hids : t.cards.map (·.background) =
      (s.cards.map (·.background)).insertIdx (i + 1) current.background := by
    rw [h.cards_eq, List.map_insertIdx, hon]
  unfold backgroundsInOrder background?
  rw [hids, firstOccurrences_insertIdx hcurrent, hbackgrounds]

end Insertion

/-! ## New cards and new backgrounds -/

namespace Coherent

theorem exists_current (hs : s.Coherent) :
    ∃ i current, s.cardIndex? s.currentCard = some i ∧ s.card? s.currentCard = some current ∧
      s.cards[i]? = some current := by
  obtain ⟨current, hcurrent⟩ := Option.isSome_iff_exists.1 (isSome_card?.2 hs.current_mem)
  obtain ⟨i, hi⟩ := cardIndex?_of_card? hcurrent
  exact ⟨i, current, hi, hcurrent, (card?_eq_getElem? hi).symm.trans hcurrent⟩

/-- A new card lies on the background of the current one. -/
theorem newCard_insertion (hs : s.Coherent) :
    ∃ i current new t, s.newCard = .ok (new.id, t) ∧ s.Insertion i current new t ∧
      new.background = current.background ∧ t.backgrounds = s.backgrounds := by
  obtain ⟨i, current, hi, hcurrent, hget⟩ := hs.exists_current
  have hnew : s.newCard = .ok (s.nextId, insertAfterCurrent { s with nextId := s.nextId + 1 }
      (.blank s.nextId current.background "" {})) := by
    rw [Stack.newCard_eq, hcurrent]
  refine ⟨i, current, .blank s.nextId current.background "" {}, _, hnew,
    ⟨(card?_eq_some hcurrent).2, hget, ?_, ?_⟩, rfl, rfl⟩
  · exact cards_insertAfterCurrent_of_index hi _
  · exact (hs.newCard hnew).coherent.toOrderly

/-- A new background comes with a card on it. -/
theorem newBackground_insertion (hs : s.Coherent) :
    ∃ i current,
      s.Insertion i current (.blank (s.nextId + 1) s.nextId "" {}) s.newBackground.2 := by
  obtain ⟨i, current, hi, hcurrent, hget⟩ := hs.exists_current
  refine ⟨i, current, (card?_eq_some hcurrent).2, hget, ?_, hs.newBackground.coherent.toOrderly⟩
  exact cards_insertAfterCurrent_of_index hi _

theorem newBackground_restoredFrom (hs : s.Coherent) :
    s.RestoredFrom s.newBackground.2 s.newBackground.1 := by
  obtain ⟨i, current, h⟩ := hs.newBackground_insertion
  -- The identifier of the new background had not been given out.
  have hfresh : ∀ b ∈ s.backgrounds, b.id ≠ s.nextId := by
    intro b hb
    exact Nat.ne_of_lt (hs.ids_lt b.id (mem_ids_of_background hb List.mem_cons_self))
  have hunused : s.cardsOf s.nextId = [] := by
    refine cardsOf_eq_nil.2 fun c hc hon => ?_
    obtain ⟨b, hb, hid⟩ := hs.background_mem c hc
    exact hfresh b hb (hid.trans hon)
  have hfilter : s.newBackground.2.backgrounds.filter (·.id != s.nextId) = s.backgrounds := by
    show (s.backgrounds ++ [Background.blank s.nextId "" {}]).filter (·.id != s.nextId) = _
    rw [List.filter_append, List.filter_eq_self.2 fun b hb => by simpa using hfresh b hb]
    simp [Background.blank]
  refine h.restoredFrom ?_
  show s.backgrounds = if s.cardsOf s.nextId = [] then _ else _
  rw [if_pos hunused]
  exact hfilter.symm

end Coherent

/-- **The order of backgrounds** in a reachable stack. In order come the backgrounds that have a
card, each once, and one before another if its first card comes before that of the other. A new
card changes neither this order nor the number of any background. It gets the number after that of
the current card, and of the cards there were exactly those behind the current one then have a
number that is one greater. When it is removed again, the cards, the backgrounds and their order
are what they were, and so they are when the card of a new background is removed. -/
theorem background_order (hs : s.Reachable) :
    (∀ b, b ∈ s.backgroundsInOrder ↔
      b ∈ s.backgrounds ∧ ∃ c ∈ s.cards, c.background = b.id) ∧
    (s.backgroundsInOrder.map (·.id)).Nodup ∧
    (s.backgroundsInOrder.Pairwise fun b b' => s.firstCardIndex b < s.firstCardIndex b') ∧
    (∃ id t k, s.newCard = .ok (id, t) ∧
      t.backgroundsInOrder = s.backgroundsInOrder ∧
      (∀ b, t.numberOf (.background b) = s.numberOf (.background b)) ∧
      s.numberOf (.card s.currentCard) = .ok k ∧
      t.numberOf (.card id) = .ok (k + 1) ∧
      (∀ c ∈ s.cards, ∃ n, s.numberOf (.card c.id) = .ok n ∧
        t.numberOf (.card c.id) = .ok (if k < n then n + 1 else n)) ∧
      s.RestoredFrom t id) ∧
    s.RestoredFrom s.newBackground.2 s.newBackground.1 := by
  have hs := hs.coherent
  refine ⟨fun b => hs.mem_backgroundsInOrder_iff, s.backgroundsInOrder_nodup,
    s.backgroundsInOrder_pairwise, ?_, hs.newBackground_restoredFrom⟩
  obtain ⟨i, current, new, t, hnew, h, hon, hbackgrounds⟩ := hs.newCard_insertion
  have horder := h.backgroundsInOrder_eq hon hbackgrounds
  refine ⟨new.id, t, i + 1, hnew, horder, fun b => ?_, h.numberOf_current hs.toOrderly,
    h.numberOf_new, fun c hc => h.numberOf_moved hs.toOrderly hc, h.restoredFrom ?_⟩
  · simp only [numberOf, horder]
  · have hused : s.cardsOf new.background ≠ [] := fun hnil =>
      cardsOf_eq_nil.1 hnil current h.current_mem hon.symm
    rw [if_neg hused, hbackgrounds]

end Stack

/-- A stack whose cards lie on the second background, the first one and the second one again; there
is no card on the third. -/
def StackSnapshot.crossed : StackSnapshot where
  backgrounds := [{}, {}, {}]
  cards := [{ background := 1 }, { background := 0 }, { background := 1 }]

/-- A card in front of the second one moves it up, and the backgrounds stay in the order in which
cards lie on them. -/
theorem Stack.background_order_crossed :
    ∃ s t : Stack, s.Reachable ∧ s.backgroundsInOrder.map (·.id) = [101, 100] ∧
      s.newCard = .ok (106, t) ∧ t.backgroundsInOrder.map (·.id) = [101, 100] ∧
      s.numberOf (.card 104) = .ok 2 ∧ t.numberOf (.card 104) = .ok 3 ∧
      s.RestoredFrom t 106 ∧ s.RestoredFrom s.newBackground.2 107 := by
  obtain ⟨s, c, hs, hc, hid, horder, hcurrent, hnumber, hfirst, hsecond⟩ :
      ∃ (s : Stack) (c : Card), s.Reachable ∧ c ∈ s.cards ∧ c.id = 104 ∧
        s.backgroundsInOrder.map (·.id) = [101, 100] ∧
        s.numberOf (.card s.currentCard) = .ok 1 ∧ s.numberOf (.card 104) = .ok 2 ∧
        (∃ t, s.newCard = .ok (106, t)) ∧ s.newBackground.1 = 107 :=
    ⟨_, _, ⟨.crossed, _, rfl, .refl⟩, .tail _ (.head _), rfl, rfl, rfl, rfl, ⟨_, rfl⟩, rfl⟩
  obtain ⟨t, hnew⟩ := hfirst
  obtain ⟨-, -, -, ⟨id, t', k, hnew', hsame, -, hk, -, hmoved, hrestored⟩, hrestored'⟩ :=
    background_order hs
  cases hnew.symm.trans hnew'
  cases hcurrent.symm.trans hk
  obtain ⟨n, hn, hmoved⟩ := hmoved c hc
  rw [hid] at hn hmoved
  cases hnumber.symm.trans hn
  rw [hsecond] at hrestored'
  exact ⟨s, t, hs, horder, hnew, hsame ▸ horder, hnumber, hmoved, hrestored, hrestored'⟩

end CardScript
