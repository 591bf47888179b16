import CardScript.Proofs.Stack.Coherence
import CardScript.Stack.Opening
import Mathlib.Algebra.GroupWithZero.Nat

/-!
# Opened stacks are coherent

Every background and card of a snapshot takes a run of identifiers, its own and those of its
parts, so a stack stays orderly while it is put together. Texts that cards hold in background
fields only change what is written in the stack.
-/

namespace CardScript

/-! ## Identifiers given out -/

theorem Stack.Fresh.range (first n : Nat) : Stack.Fresh (List.range' first n) first (first + n) :=
  ⟨List.nodup_range', fun _ hid => List.mem_range'_1.1 hid⟩

theorem ids_openParts (kind : PartKind) (layer : Layer) (owner next : PartId)
    (parts : List PartSnapshot) :
    (openParts kind layer owner next parts).map (·.id) = List.range' next parts.length := by
  induction parts generalizing next with
  | nil => rfl
  | cons p parts ih => rw [openParts, List.map_cons, ih, List.length_cons, List.range'_succ]

theorem openParts_placed {p : Part} (hp : p ∈ openParts kind layer owner next parts) :
    p.layer = layer ∧ p.owner = owner := by
  induction parts generalizing next with
  | nil => cases hp
  | cons snapshot parts ih =>
    rcases List.mem_cons.1 hp with rfl | hp
    · exact ⟨rfl, rfl⟩
    · exact ih hp

theorem ids_openLayer (layer : Layer) (owner : PartId) (buttons fields : List PartSnapshot) :
    owner :: (openLayer layer owner buttons fields).map (·.id) =
      List.range' owner (1 + buttons.length + fields.length) := by
  rw [openLayer, List.map_append, ids_openParts, ids_openParts, List.range'_append_1,
    ← List.range'_succ]
  congr 1
  omega

theorem openLayer_placed {p : Part} (hp : p ∈ openLayer layer owner buttons fields) :
    p.layer = layer ∧ p.owner = owner := by
  rcases List.mem_append.1 hp with hp | hp
  · exact openParts_placed hp
  · exact openParts_placed hp

theorem BackgroundSnapshot.fresh_ids (b : BackgroundSnapshot) (id : PartId) :
    Stack.Fresh (b.toBackground id).ids id (id + b.size) := by
  have hids : (b.toBackground id).ids = List.range' id b.size := ids_openLayer ..
  rw [hids]
  exact .range id b.size

theorem CardSnapshot.fresh_ids (c : CardSnapshot) (id background : PartId) :
    Stack.Fresh (c.toCard id background).ids id (id + c.size) := by
  have hids : (c.toCard id background).ids = List.range' id c.size := ids_openLayer ..
  rw [hids]
  exact .range id c.size

/-! ## Putting a stack together -/

namespace Background

theorem outline_fill {b b' : Background} (hb : b.ids.Nodup) (h : b.fill card called text = .ok b') :
    b'.outline = b.outline := by
  unfold fill at h
  split at h
  next field hfind =>
    obtain ⟨field', hset, h⟩ := Failure.bind_eq_ok.1 h
    cases h
    have hfield := Part.outline_setText hset
    have hparts := Stack.outline_replacePart (q := field') b.parts fun p hp hid => by
      -- Identifiers on a background are distinct: only the field itself is replaced.
      obtain ⟨hid', _⟩ := Part.of_outline_eq hfield
      have hmem := List.mem_of_find?_eq_some hfind
      rw [List.inj_on_of_nodup_map hb.of_cons hp hmem (hid.trans hid'), hfield]
    simp only [outline, hparts]
  next => cases h

theorem outline_fillAll {b b' : Background} (hb : b.ids.Nodup)
    (h : b.fillAll card texts = .ok b') : b'.outline = b.outline := by
  refine Failure.foldlM_keeps (P := (·.outline = b.outline)) (fun b₁ text b₂ h₁ h₂ => ?_) rfl h
  have hnodup : b₁.ids.Nodup := by
    rw [← ids_outline, h₁, ids_outline]
    exact hb
  exact (outline_fill hnodup h₂).trans h₁

end Background

namespace Stack

variable {s t : Stack}

theorem Orderly.openBackgrounds (hs : s.Orderly) (backgrounds : List BackgroundSnapshot) :
    ({ s with
      nextId := backgrounds.foldl (fun next b => next + b.size) s.nextId
      backgrounds := s.backgrounds ++ openBackgrounds s.nextId backgrounds } : Stack).Orderly := by
  induction backgrounds generalizing s with
  | nil => simpa [CardScript.openBackgrounds] using hs
  | cons b backgrounds ih =>
    have hadd : ({ s with
        nextId := s.nextId + b.size
        backgrounds := s.backgrounds ++ [b.toBackground s.nextId] } : Stack).Orderly :=
      hs.addBackground rfl rfl (b.fresh_ids s.nextId) fun _ hp => openLayer_placed hp
    simpa [CardScript.openBackgrounds] using ih hadd

/-- A stack under construction, with backgrounds of known identifiers. -/
structure Taking (known : List PartId) (s : Stack) : Prop where
  orderly : s.Orderly
  backgrounds_eq : s.backgrounds.map (·.id) = known

theorem Taking.of_outline_eq (hs : s.Taking known) (h : t.outline = s.outline) :
    t.Taking known := by
  refine ⟨hs.orderly.of_outline_eq h, ?_⟩
  have hids : t.outline.backgrounds.map (·.id) = s.outline.backgrounds.map (·.id) := by rw [h]
  simp only [outline, List.map_map] at hids
  exact hids.trans hs.backgrounds_eq

theorem Taking.appendCard (hs : s.Taking known) (c : CardSnapshot)
    (h : known[c.background]? = some background) :
    Taking known { s with
      nextId := s.nextId + c.size
      cards := s.cards ++ [c.toCard s.nextId background] } := by
  have hon : ∃ b ∈ s.backgrounds, b.id = background := by
    rw [← hs.backgrounds_eq] at h
    exact List.mem_map.1 (List.mem_of_getElem? h)
  refine ⟨hs.orderly.addCard List.perm_append_comm rfl ?_ hon ?_, hs.backgrounds_eq⟩
  · exact c.fresh_ids s.nextId background
  · exact fun _ hp => openLayer_placed hp

theorem Taking.fillBackground (hs : s.Taking known) {b b' : Background}
    (hb : s.background? background = some b) (h : b.fillAll card texts = .ok b') :
    (s.withBackground b').Taking known := by
  obtain ⟨hmem, _⟩ := background?_eq_some hb
  have houtline := Background.outline_fillAll (hs.orderly.background_ids_nodup hmem) h
  exact hs.of_outline_eq (hs.orderly.outline_withBackground hmem houtline)

theorem Taking.addCard (hs : s.Taking known) (h : s.addCard known c = .ok t) :
    t.Taking known ∧ t.cards ≠ [] := by
  unfold Stack.addCard at h
  split at h
  · cases h
  next background hbackground =>
  have happend := hs.appendCard c hbackground
  have hne : s.cards ++ [c.toCard s.nextId background] ≠ [] :=
    List.append_ne_nil_of_right_ne_nil _ (List.cons_ne_nil _ _)
  dsimp only at h
  split at h
  next b hb =>
    obtain ⟨b', hfill, h⟩ := Failure.bind_eq_ok.1 h
    cases h
    exact ⟨happend.fillBackground hb hfill, hne⟩
  next =>
    cases h
    exact ⟨happend, hne⟩

theorem Taking.addCards (hs : s.Taking known) {cards : List CardSnapshot} (hne : cards ≠ [])
    (h : cards.foldlM (fun s c => s.addCard known c) s = .ok t) :
    t.Taking known ∧ t.cards ≠ [] := by
  cases cards with
  | nil => exact absurd rfl hne
  | cons c cards =>
    rw [List.foldlM_cons] at h
    obtain ⟨s₁, h₁, h⟩ := Failure.bind_eq_ok.1 h
    exact Failure.foldlM_keeps (P := fun s => s.Taking known ∧ s.cards ≠ [])
      (fun _ _ _ hs h => hs.1.addCard h) (hs.addCard h₁) h

end Stack

theorem orUsual_ne_nil {α : Type} (usual : α) (list : List α) : orUsual usual list ≠ [] := by
  cases list with
  | nil => exact List.cons_ne_nil _ _
  | cons a list => exact List.cons_ne_nil _ _

/-- A snapshot that opens opens as a coherent stack. -/
theorem StackSnapshot.toStack_coherent {snapshot : StackSnapshot} {s : Stack}
    (h : snapshot.toStack = .ok s) : s.Coherent := by
  obtain ⟨stack, hfold, h⟩ := Failure.bind_eq_ok.1 h
  cases h
  have hempty : ({ nextId := 100 } : Stack).Orderly := by constructor <;> simp [Stack.ids]
  have hopened := hempty.openBackgrounds (orUsual {} snapshot.backgrounds)
  have htaking := fun hs => Stack.Taking.addCards hs (orUsual_ne_nil _ _) hfold
  obtain ⟨hs, hne⟩ := htaking ⟨hopened.congr rfl rfl rfl, rfl⟩
  refine ⟨hs.orderly.congr rfl rfl rfl, ?_⟩
  obtain ⟨c, cards, hcards⟩ := List.exists_cons_of_ne_nil hne
  exact ⟨c, hcards ▸ List.mem_cons_self, by rw [hcards]; rfl⟩

/-! ## How many identifiers are given out -/

/-- The number of identifiers that a snapshot takes. -/
def StackSnapshot.size (s : StackSnapshot) : Nat :=
  ((orUsual {} s.backgrounds).map (·.size)).sum + ((orUsual {} s.cards).map (·.size)).sum

theorem BackgroundSnapshot.foldl_size (backgrounds : List BackgroundSnapshot) (first : PartId) :
    backgrounds.foldl (fun next b => next + b.size) first =
      first + (backgrounds.map (·.size)).sum := by
  induction backgrounds generalizing first with
  | nil => rfl
  | cons b backgrounds ih => rw [List.foldl_cons, ih, List.map_cons, List.sum_cons, Nat.add_assoc]

namespace Stack

theorem nextId_addCard {s t : Stack} (h : s.addCard known c = .ok t) :
    t.nextId = s.nextId + c.size := by
  unfold Stack.addCard at h
  split at h
  · cases h
  dsimp only at h
  split at h
  · obtain ⟨b', -, h⟩ := Failure.bind_eq_ok.1 h
    cases h
    rfl
  · cases h
    rfl

theorem nextId_addCards {cards : List CardSnapshot} {s t : Stack}
    (h : cards.foldlM (fun s c => s.addCard known c) s = .ok t) :
    t.nextId = s.nextId + (cards.map (·.size)).sum := by
  induction cards generalizing s with
  | nil =>
    cases h
    rfl
  | cons c cards ih =>
    rw [List.foldlM_cons] at h
    obtain ⟨s₁, h₁, h⟩ := Failure.bind_eq_ok.1 h
    rw [ih h, nextId_addCard h₁, List.map_cons, List.sum_cons, Nat.add_assoc]

end Stack

/-- Every component of a snapshot takes one identifier. -/
theorem StackSnapshot.nextId_toStack {snapshot : StackSnapshot} {s : Stack}
    (h : snapshot.toStack = .ok s) : s.nextId = 100 + snapshot.size := by
  obtain ⟨stack, hfold, h⟩ := Failure.bind_eq_ok.1 h
  cases h
  have hcards := Stack.nextId_addCards hfold
  rw [BackgroundSnapshot.foldl_size] at hcards
  exact hcards.trans (Nat.add_assoc ..)

/-- Two cards, one with a button and the other without parts, on backgrounds of their own, of
which the first has a field. -/
def StackSnapshot.twoCards : StackSnapshot where
  backgrounds := [{ fields := [{ name := "notes" }] }, {}]
  cards := [{ buttons := [{ name := "next" }] }, { background := 1 }]

end CardScript
