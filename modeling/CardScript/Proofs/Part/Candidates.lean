import CardScript.Proofs.Part.Finding

/-!
# What addresses pick from

In every scope an address by identifier, name, number or ordinal word picks from a row of
candidates, which is settled by the type and the layer alone (`Scope.candidates`). The finders come
to a component exactly if that pick does (`Scope.find_eq_ok_iff`). There are few rows to pick from
(`Scope.Row`), and in an orderly stack the candidates of a row have different identifiers
(`Scope.Row.nodup`).
-/

namespace CardScript

/-! ## Picking by number and by name -/

namespace Finding

variable {α β : Type} {items : List α} {a : α} {n : Int}

/-- What is found first has nothing of its kind before it. -/
theorem find?_eq_some_iff {test : α → Bool} :
    items.find? test = some a ↔
      ∃ i, items[i]? = some a ∧ test a ∧
        ∀ (j : Nat) b, j < i → items[j]? = some b → test b = false := by
  rw [List.find?_eq_some_iff_getElem]
  constructor
  · rintro ⟨htest, i, hi, rfl, hbefore⟩
    refine ⟨i, List.getElem?_eq_getElem hi, htest, fun j b hj hb => ?_⟩
    obtain ⟨-, rfl⟩ := List.getElem?_eq_some_iff.1 hb
    simpa using hbefore j hj
  · rintro ⟨i, hi, htest, hbefore⟩
    obtain ⟨hlt, rfl⟩ := List.getElem?_eq_some_iff.1 hi
    refine ⟨htest, i, hlt, rfl, fun j hj => ?_⟩
    rw [hbefore j _ hj (List.getElem?_eq_getElem (by omega))]
    rfl

theorem nth?_eq_some_iff : nth? items n = some a ↔ ∃ i : Nat, items[i]? = some a ∧ n = i + 1 := by
  unfold nth?
  split
  next hn =>
    constructor
    · intro h
      exact ⟨_, h, by omega⟩
    · rintro ⟨i, hi, rfl⟩
      simpa using hi
  next hn =>
    refine ⟨nofun, ?_⟩
    rintro ⟨i, -, rfl⟩
    omega

/-- Numbers run from one to the number of items. -/
theorem exists_nth?_iff : (∃ a, nth? items n = some a) ↔ 1 ≤ n ∧ n ≤ items.length := by
  simp only [nth?_eq_some_iff]
  constructor
  · rintro ⟨a, i, hi, rfl⟩
    obtain ⟨hlt, -⟩ := List.getElem?_eq_some_iff.1 hi
    omega
  · rintro ⟨hone, hle⟩
    have hlt : (n - 1).toNat < items.length := by omega
    exact ⟨_, _, List.getElem?_eq_getElem hlt, by omega⟩

theorem select?_map (g : β → α) (items : List β) (idOf : α → PartId) (nameOf : α → String)
    (draws : Draws) (spec : Specifier) :
    select? draws (items.map g) idOf nameOf spec =
      (select? draws items (fun b => idOf (g b)) (fun b => nameOf (g b)) spec).map g := by
  have hnth (n : Int) : nth? (items.map g) n = (nth? items n).map g := by
    unfold nth?
    split
    · exact List.getElem?_map
    · rfl
  cases spec with
  | id layer type id => exact List.find?_map ..
  | name layer type name literal =>
    have hnamed : named? (items.map g) nameOf name =
        (named? items (fun b => nameOf (g b)) name).map g := List.find?_map ..
    simp only [select?, hnamed]
    cases named? items (fun b => nameOf (g b)) name with
    | some b => rfl
    | none =>
      simp only [Option.map_none]
      split
      · rfl
      · cases Number.readWord? (Text.trim name.toList) with
        | some n => exact hnth n
        | none => rfl
  | number layer type n => exact hnth n
  | ordinal layer type word => simp only [select?, hnth, List.length_map]
  | _ => rfl

end Finding

/-! ## Candidates -/

/-- A component that can be picked, and what it can be picked by. -/
structure Candidate where
  found : Found
  id : PartId
  name : String

namespace Candidate

def ofCard (c : Card) : Candidate :=
  ⟨.ofCard c.id, c.id, c.name⟩

def ofBackground (context : Option PartId) (b : Background) : Candidate :=
  ⟨⟨.background b.id, context⟩, b.id, b.name⟩

def ofPart (kind : PartKind) (layer : Layer) (context : Option PartId) (p : Part) : Candidate :=
  ⟨⟨.part kind layer p.id, context⟩, p.id, p.name⟩

end Candidate

/-- By identifier, name, number or ordinal word. -/
inductive Specifier.Picks : Specifier → Prop
  | id : Picks (.id l t n)
  | name : Picks (.name l t s literal)
  | number : Picks (.number l t k)
  | ordinal : Picks (.ordinal l t word)

namespace Scope

open Finding

/-- The buttons or the fields among some parts. -/
def partCandidates (parts : List Part) (kind : PartKind) (layer : Layer)
    (context : Option PartId) : List Candidate :=
  (parts.filter (·.kind == kind)).map (.ofPart kind layer context)

/-- On a background: its cards, and its own buttons and fields. -/
def backgroundCandidates (s : Stack) (b : Background) (context : Option PartId)
    (layer : Option Layer) : PartType → List Candidate
  | .card => (s.cardsOf b.id).map .ofCard
  | .button => if layer = some .card then [] else partCandidates b.parts .button .background context
  | .field => if layer = some .card then [] else partCandidates b.parts .field .background context
  | .background | .stack => []

/-- On a card: buttons and fields of its own or of its background. -/
def cardCandidates (s : Stack) (c : Card) (layer : Option Layer) (type : PartType) :
    List Candidate :=
  match type.kind?, layer.getD type.usualLayer with
  | none, _ => []
  | some kind, .card => partCandidates c.parts kind .card (some c.id)
  | some _, .background =>
    (s.background? c.background).elim [] fun b =>
      backgroundCandidates s b (some c.id) layer type

/-- In a stack: its cards, its backgrounds, and the buttons and fields of the card from which it is
seen. -/
def stackCandidates (s : Stack) (current : PartId) (layer : Option Layer) :
    PartType → List Candidate
  | .card => s.cards.map .ofCard
  | .background =>
    s.backgroundsInOrder.map fun b => .ofBackground (contextFor s current b.id) b
  | .button => (s.card? current).elim [] fun c => cardCandidates s c layer .button
  | .field => (s.card? current).elim [] fun c => cardCandidates s c layer .field
  | .stack => []

/-- The components of a type on a layer, in the order in which they are numbered. -/
def candidates (s : Stack) (scope : Scope) (layer : Option Layer) (type : PartType) :
    List Candidate :=
  match scope with
  | stack current => stackCandidates s current layer type
  | card c => cardCandidates s c layer type
  | background b context => backgroundCandidates s b context layer type

/-- What an address picks from some candidates. -/
def pick? (draws : Draws) (candidates : List Candidate) (spec : Specifier) : Option Found :=
  (select? draws candidates (·.id) (·.name) spec).map (·.found)

/-! ## The finders pick from the candidates -/

variable {s : Stack} {f : Found} {spec : Specifier} {scope : Scope} {draws : Draws}

theorem pick?_map {α : Type} (items : List α) (g : α → Candidate) {idOf : α → PartId}
    {nameOf : α → String} (h : ∀ a, (g a).id = idOf a ∧ (g a).name = nameOf a)
    (spec : Specifier) :
    pick? draws (items.map g) spec =
      (select? draws items idOf nameOf spec).map fun a => (g a).found := by
  have hid : (fun a => (g a).id) = idOf := funext fun a => (h a).1
  have hname : (fun a => (g a).name) = nameOf := funext fun a => (h a).2
  rw [pick?, select?_map, hid, hname, Option.map_map]
  rfl

theorem pick?_nil (spec : Specifier) : pick? draws [] spec = none := by
  cases h : select? draws ([] : List Candidate) (·.id) (·.name) spec with
  | none => rw [pick?, h, Option.map_none]
  | some c => cases select?_mem h

theorem pick?_cards (cards : List Card) (spec : Specifier) :
    pick? draws (cards.map .ofCard) spec =
      (select? draws cards (·.id) (·.name) spec).map fun c => .ofCard c.id :=
  pick?_map cards _ (fun _ => ⟨rfl, rfl⟩) spec

theorem pick?_backgrounds (backgrounds : List Background) (context : PartId → Option PartId)
    (spec : Specifier) :
    pick? draws (backgrounds.map fun b => .ofBackground (context b.id) b) spec =
      (select? draws backgrounds (·.id) (·.name) spec).map fun b =>
        ⟨.background b.id, context b.id⟩ :=
  pick?_map backgrounds _ (fun _ => ⟨rfl, rfl⟩) spec

theorem pick?_parts (parts : List Part) (kind : PartKind) (layer : Layer)
    (context : Option PartId) (spec : Specifier) :
    pick? draws (partCandidates parts kind layer context) spec =
      (select? draws (parts.filter (·.kind == kind)) (·.id) (·.name) spec).map fun p =>
        ⟨.part kind layer p.id, context⟩ :=
  pick?_map (parts.filter (·.kind == kind)) _ (fun _ => ⟨rfl, rfl⟩) spec

theorem findPart_eq_ok_iff {parts : List Part} {kind : PartKind} {layer : Layer}
    {context : Option PartId} {missing : Failure} :
    findPart draws parts kind layer context missing spec = .ok f ↔
      pick? draws (partCandidates parts kind layer context) spec = some f := by
  rw [pick?_parts, findPart]
  cases select? draws (parts.filter (·.kind == kind)) (·.id) (·.name) spec with
  | some p => simp
  | none => simp

theorem findOnBackground_eq_ok_iff {b : Background} {context : Option PartId}
    {missing : Failure} :
    findOnBackground s draws b context missing spec = .ok f ↔
      pick? draws (backgroundCandidates s b context spec.explicitLayer? spec.type) spec =
        some f := by
  have hpart {kind : PartKind} :
      (if spec.explicitLayer? == some .card then .error missing
        else findPart draws b.parts kind .background context missing spec) = .ok f ↔
      pick? draws (if spec.explicitLayer? = some .card then []
        else partCandidates b.parts kind .background context) spec = some f := by
    by_cases hlayer : spec.explicitLayer? = some .card
    · simp [hlayer, pick?_nil]
    · simp [hlayer, findPart_eq_ok_iff]
  unfold findOnBackground
  cases spec.type with
  | card =>
    rw [backgroundCandidates, pick?_cards]
    cases select? draws (s.cardsOf b.id) (·.id) (·.name) spec with
    | some c => simp
    | none => simp
  | button | field => exact hpart
  | background | stack => simp [PartType.kind?, backgroundCandidates, pick?_nil]

theorem findOnCard_eq_ok_iff {c : Card} {missing : Failure} (hspec : spec.Picks) :
    findOnCard s draws c missing spec = .ok f ↔
      pick? draws (cardCandidates s c spec.explicitLayer? spec.type) spec = some f := by
  unfold findOnCard cardCandidates
  rw [← Specifier.layer]
  cases spec.type.kind? with
  | none =>
    cases spec with
    | position => nomatch hspec
    | _ => simp [pick?_nil]
  | some kind =>
    cases spec.layer with
    | card => exact findPart_eq_ok_iff
    | background =>
      cases s.background? c.background with
      | some b => exact findOnBackground_eq_ok_iff
      | none => simp [pick?_nil]

theorem findCard_eq_ok_iff {current : PartId} {missing : Failure} (hspec : spec.Picks) :
    findCard s draws current missing spec = .ok f ↔
      pick? draws (s.cards.map .ofCard) spec = some f := by
  rw [pick?_cards]
  cases spec with
  | position => nomatch hspec
  | _ =>
    simp only [findCard, pure_bind]
    split
    next hsome => simp [hsome, pure, Except.pure]
    next hnone => simp [hnone, throw, throwThe, MonadExceptOf.throw]

theorem findBackground_eq_ok_iff {current : PartId} {missing : Failure} (hspec : spec.Picks) :
    findBackground s draws current missing spec = .ok f ↔
      pick? draws (s.backgroundsInOrder.map fun b =>
        .ofBackground (contextFor s current b.id) b) spec = some f := by
  rw [pick?_backgrounds]
  cases spec with
  | position => nomatch hspec
  | _ =>
    simp only [findBackground]
    split
    next hsome => simp [hsome]
    next hnone => simp [hnone]

theorem findInStack_eq_ok_iff {current : PartId} {missing : Failure} (hspec : spec.Picks)
    (htype : spec.type ≠ .stack) :
    findInStack s draws current missing spec = .ok f ↔
      pick? draws (stackCandidates s current spec.explicitLayer? spec.type) spec = some f := by
  have honCard (c : Card) : findOnCard s draws c missing spec = .ok f ↔
      pick? draws (cardCandidates s c spec.explicitLayer? spec.type) spec = some f :=
    findOnCard_eq_ok_iff hspec
  unfold findInStack
  cases hkind : spec.type with
  | stack => exact absurd hkind htype
  | card => exact findCard_eq_ok_iff hspec
  | background => exact findBackground_eq_ok_iff hspec
  | button | field =>
    -- those of the card that the stack is seen from
    rw [hkind] at honCard
    simp only [stackCandidates, Stack.card?_eq_bind, currentIndex]
    cases s.cardIndex? current with
    | none => simp [pick?_nil, bind, Except.bind]
    | some index =>
      simp only [bind, Except.bind, Option.bind_some]
      cases s.cards[index]? with
      | some c => exact honCard c
      | none => simp [pick?_nil, throw, throwThe, MonadExceptOf.throw]

/-- An address of this kind finds what it picks from the candidates. -/
theorem find_eq_ok_iff {describe : Handle → String} (hspec : spec.Picks)
    (htype : spec.type ≠ .stack) :
    find s describe draws scope spec = .ok f ↔
      pick? draws (candidates s scope spec.explicitLayer? spec.type) spec = some f := by
  cases spec with
  | position | stack | of | resolved => nomatch hspec
  | _ =>
    cases scope with
    | stack current => exact findInStack_eq_ok_iff hspec htype
    | card c => exact findOnCard_eq_ok_iff hspec
    | background b context => exact findOnBackground_eq_ok_iff

end Scope

/-! ## Candidates have different identifiers -/

namespace Stack

theorem firstOccurrences_nodup (ids : List PartId) : (firstOccurrences ids).Nodup := by
  induction ids with
  | nil => exact List.nodup_nil
  | cons id ids ih => exact List.nodup_cons.2 ⟨by simp, ih.filter _⟩

theorem mem_firstOccurrences {ids : List PartId} {id : PartId} :
    id ∈ firstOccurrences ids ↔ id ∈ ids := by
  refine ⟨mem_of_mem_firstOccurrences, fun h => ?_⟩
  induction ids with
  | nil => cases h
  | cons first rest ih =>
    by_cases hfirst : id = first
    · rw [hfirst]
      exact List.mem_cons_self
    · have hrest := ih ((List.mem_cons.1 h).resolve_left hfirst)
      exact List.mem_cons_of_mem _ (List.mem_filter.2 ⟨hrest, by simpa using hfirst⟩)

variable {s : Stack}

/-- Looking up identifiers leaves out some, but neither changes nor moves any. -/
theorem ids_filterMap_background? (s : Stack) (ids : List PartId) :
    ((ids.filterMap s.background?).map (·.id)).Sublist ids := by
  induction ids with
  | nil => exact List.Sublist.refl _
  | cons id ids ih =>
    cases hb : s.background? id with
    | none =>
      rw [List.filterMap_cons_none hb]
      exact ih.cons id
    | some b =>
      rw [List.filterMap_cons_some hb, List.map_cons, (background?_eq_some hb).2]
      exact ih.cons_cons id

theorem backgroundsInOrder_nodup (s : Stack) : (s.backgroundsInOrder.map (·.id)).Nodup :=
  (firstOccurrences_nodup _).sublist (ids_filterMap_background? s _)

theorem Orderly.mem_backgroundsInOrder (hs : s.Orderly) {b : Background} {c : Card}
    (hb : b ∈ s.backgrounds) (hc : c ∈ s.cards) (hon : c.background = b.id) :
    b ∈ s.backgroundsInOrder := by
  refine List.mem_filterMap.2 ⟨b.id, ?_, hs.background?_eq hb⟩
  exact mem_firstOccurrences.2 (List.mem_map.2 ⟨c, hc, hon⟩)

theorem Orderly.card_parts_nodup (hs : s.Orderly) {c : Card} (hc : c ∈ s.cards) :
    (c.parts.map (·.id)).Nodup :=
  (hs.card_ids_nodup hc).of_cons

theorem Orderly.background_parts_nodup (hs : s.Orderly) {b : Background}
    (hb : b ∈ s.backgrounds) : (b.parts.map (·.id)).Nodup :=
  (hs.background_ids_nodup hb).of_cons

end Stack

namespace Scope

variable {s : Stack} {scope : Scope}

/-- The scope is the stack or lies in it. -/
def LiesIn (s : Stack) : Scope → Prop
  | stack _ => True
  | card c => c ∈ s.cards
  | background b _ => b ∈ s.backgrounds

/-- The rows of candidates that a scope of a stack can give for a type. -/
inductive Row (s : Stack) (scope : Scope) : PartType → List Candidate → Prop
  | empty : Row s scope type []
  | cards : scope = stack view → Row s scope .card (s.cards.map .ofCard)
  | cardsOf : scope = background b context → Row s scope .card ((s.cardsOf b.id).map .ofCard)
  | backgrounds (context : PartId → Option PartId) :
    Row s scope .background (s.backgroundsInOrder.map fun b => .ofBackground (context b.id) b)
  | cardParts (kind : PartKind) : c ∈ s.cards →
    Row s scope kind.type (partCandidates c.parts kind .card context)
  | backgroundParts (kind : PartKind) : b ∈ s.backgrounds →
    Row s scope kind.type (partCandidates b.parts kind .background context)

theorem row_backgroundCandidates {b : Background} (hb : b ∈ s.backgrounds)
    {context : Option PartId} {layer : Option Layer} {type : PartType} (htype : type ≠ .card) :
    Row s scope type (backgroundCandidates s b context layer type) := by
  cases type with
  | card => exact absurd rfl htype
  | button =>
    rw [backgroundCandidates]
    split
    · exact .empty
    · exact .backgroundParts .button hb
  | field =>
    rw [backgroundCandidates]
    split
    · exact .empty
    · exact .backgroundParts .field hb
  | background | stack => exact .empty

theorem row_cardCandidates {c : Card} (hc : c ∈ s.cards) {layer : Option Layer}
    {type : PartType} : Row s scope type (cardCandidates s c layer type) := by
  have hkind {kind : PartKind} (h : type.kind? = some kind) : type = kind.type ∧ type ≠ .card := by
    cases type with
    | button | field =>
      cases h
      exact ⟨rfl, nofun⟩
    | _ => cases h
  unfold cardCandidates
  split
  · exact .empty
  next kind hsome _ =>
    rw [(hkind hsome).1]
    exact .cardParts kind hc
  next kind hsome _ =>
    cases hb : s.background? c.background with
    | none => exact .empty
    | some b => exact row_backgroundCandidates (Stack.background?_eq_some hb).1 (hkind hsome).2

theorem row_candidates (hscope : scope.LiesIn s) (layer : Option Layer) (type : PartType) :
    Row s scope type (candidates s scope layer type) := by
  have hcurrent {current : PartId} {type : PartType} :
      Row s scope type ((s.card? current).elim [] fun c => cardCandidates s c layer type) := by
    cases hc : s.card? current with
    | none => exact .empty
    | some c => exact row_cardCandidates (Stack.card?_eq_some hc).1
  cases scope with
  | stack current =>
    cases type with
    | card => exact .cards rfl
    | background => exact .backgrounds _
    | button | field => exact hcurrent
    | stack => exact .empty
  | card c => exact row_cardCandidates hscope
  | background b context =>
    by_cases htype : type = .card
    · subst htype
      exact .cardsOf rfl
    · exact row_backgroundCandidates hscope htype

theorem Row.nodup (hs : s.Orderly) {items : List Candidate} {type : PartType}
    (h : Row s scope type items) : (items.map (·.id)).Nodup := by
  have hparts {parts : List Part} (h : (parts.map (·.id)).Nodup) (kind : PartKind) (layer : Layer)
      (context : Option PartId) :
      ((partCandidates parts kind layer context).map (·.id)).Nodup := by
    rw [partCandidates, List.map_map]
    exact h.sublist (List.filter_sublist.map _)
  cases h with
  | empty => exact List.nodup_nil
  | cards =>
    rw [List.map_map]
    exact hs.cards_nodup
  | cardsOf =>
    rw [List.map_map]
    exact hs.cards_nodup.sublist (List.filter_sublist.map _)
  | backgrounds =>
    rw [List.map_map]
    exact s.backgroundsInOrder_nodup
  | cardParts kind hc => exact hparts (hs.card_parts_nodup hc) ..
  | backgroundParts kind hb => exact hparts (hs.background_parts_nodup hb) ..

/-- A candidate goes by the identifier of what it stands for. -/
theorem Row.id? {items : List Candidate} {type : PartType} (h : Row s scope type items)
    {c : Candidate} (hc : c ∈ items) : c.found.part.id? = some c.id := by
  cases h with
  | empty => cases hc
  | _ =>
    obtain ⟨_, -, rfl⟩ := List.mem_map.1 hc
    rfl

end Scope

end CardScript
