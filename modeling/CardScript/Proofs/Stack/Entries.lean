import CardScript.Part.Access
import CardScript.Proofs.Stack.Coherence

/-!
# Writing to a stack

A stack keeps values in entries: the properties of its components, and what a background field
holds on each card. Writing to a found part replaces or adds one entry and leaves all else alone
(`setContents_written`, `setProperty_written`): the entry reads as the new value, every other entry
as before, and without the entry the two stacks are the same. Identifiers have to be distinct for
this, so that the part written is the part found.
-/

namespace CardScript

/-! ## Values by key -/

section Keyed

variable {κ : Type} {same other : κ → Bool} {value : Value}
  {put : List (κ × Value) → List (κ × Value)}

/-- The value of the first key that is the same. -/
def valueAt (same : κ → Bool) (entries : List (κ × Value)) : Option Value :=
  (entries.find? fun e => same e.1).map (·.2)

/-- The entries without a key. -/
def dropKey (same : κ → Bool) (entries : List (κ × Value)) : List (κ × Value) :=
  entries.filter fun e => !same e.1

theorem valueAt_dropKey (h : ∀ k, other k → same k = false) (entries : List (κ × Value)) :
    valueAt other (dropKey same entries) = valueAt other entries := by
  unfold valueAt dropKey
  rw [List.find?_filter]
  congr 2
  funext e
  by_cases hother : other e.1 = true
  · simp [hother, h e.1 hother]
  · simp [hother]

/-- No key is the same as two different ones. -/
theorem not_same_of_ne [BEq κ] [LawfulBEq κ] {key key' : κ} (h : key' ≠ key) (k : κ)
    (hk : (k == key') = true) : (k == key) = false := by
  rw [eq_of_beq hk]
  exact beq_eq_false_iff_ne.2 h

/-- `put` replaces the value of the first key that is the same, or adds one at the end. -/
structure Puts (same : κ → Bool) (value : Value)
    (put : List (κ × Value) → List (κ × Value)) : Prop where
  nil : ∃ k, same k ∧ put [] = [(k, value)]
  cons : ∀ k v rest,
    put ((k, v) :: rest) = if same k then (k, value) :: rest else (k, v) :: put rest

theorem Puts.valueAt_eq (h : Puts same value put) (entries : List (κ × Value)) :
    valueAt same (put entries) = some value := by
  induction entries with
  | nil =>
    obtain ⟨k, hk, hnil⟩ := h.nil
    simp [valueAt, hnil, hk]
  | cons e rest ih =>
    rw [h.cons]
    split
    next hk => simp [valueAt, hk]
    next hk =>
      rw [valueAt, List.find?_cons_of_neg (by simpa using hk)]
      exact ih

theorem Puts.dropKey_eq (h : Puts same value put) (entries : List (κ × Value)) :
    dropKey same (put entries) = dropKey same entries := by
  induction entries with
  | nil =>
    obtain ⟨k, hk, hnil⟩ := h.nil
    simp [dropKey, hnil, hk]
  | cons e rest ih =>
    rw [h.cons]
    split
    next hk => simp [dropKey, hk]
    next hk => simpa [dropKey, hk] using ih

/-- Other keys keep their values. -/
theorem Puts.valueAt_ne (h : Puts same value put) (hne : ∀ k, other k → same k = false)
    (entries : List (κ × Value)) : valueAt other (put entries) = valueAt other entries := by
  rw [← valueAt_dropKey hne, h.dropKey_eq, valueAt_dropKey hne]

end Keyed

namespace PropertyTable

variable {t t' : PropertyTable}

theorem puts (key : String) (value : Value) : Puts (· == key) value (put key value) :=
  ⟨⟨key, beq_self_eq_true key, rfl⟩, fun _ _ _ => rfl⟩

theorem valueAt_put_ne {key other : String} (h : other ≠ key) (value : Value)
    (entries : List (String × Value)) :
    valueAt (· == other) (put key value entries) = valueAt (· == other) entries :=
  (puts key value).valueAt_ne (not_same_of_ne h) entries

/-- The table without a property. -/
def without (t : PropertyTable) (key : String) : PropertyTable :=
  { t with entries := dropKey (· == key) t.entries }

theorem find?_without {key other : String} (h : other ≠ key) (t : PropertyTable) :
    (t.without key).find? other = t.find? other :=
  valueAt_dropKey (not_same_of_ne h) t.entries

theorem set_eq_ok {name : String} {value : Value} (h : t.set name value = .ok t') :
    t' = { t with entries := put (Text.lowerString name) value t.entries } := by
  obtain ⟨_, -, h⟩ := Failure.bind_eq_ok.1 h
  cases h
  rfl

theorem find?_set {name : String} {value : Value} (h : t.set name value = .ok t') :
    t'.find? (Text.lowerString name) = some value := by
  rw [set_eq_ok h]
  exact (puts _ value).valueAt_eq t.entries

theorem find?_set_ne {name other : String} {value : Value} (h : t.set name value = .ok t')
    (hne : other ≠ Text.lowerString name) : t'.find? other = t.find? other := by
  rw [set_eq_ok h]
  exact valueAt_put_ne hne value t.entries

theorem without_set {name : String} {value : Value} (h : t.set name value = .ok t') :
    t'.without (Text.lowerString name) = t.without (Text.lowerString name) := by
  rw [set_eq_ok h]
  exact congrArg (PropertyTable.mk · t.readOnly) ((puts _ value).dropKey_eq t.entries)

end PropertyTable

theorem Part.puts_cardText (card : PartId) (value : Value) :
    Puts (· == card) value (putCardText card value) :=
  ⟨⟨card, beq_self_eq_true card, rfl⟩, fun _ _ _ => rfl⟩

/-! ## Entries -/

/-- A component of a stack by its identifier alone. -/
inductive Component where
  | stack
  | card (id : PartId)
  | background (id : PartId)
  | part (id : PartId)
deriving DecidableEq

def PartRef.component : PartRef → Component
  | .stack => .stack
  | .card id => .card id
  | .background id => .background id
  | .part _ _ id => .part id

/-- Where a stack keeps a value. -/
inductive Stack.Entry where
  | property (component : Component) (key : String)
  /-- What a background field holds on a card. -/
  | cardText (field card : PartId)
deriving DecidableEq

namespace Stack

/-- Changes what has an identifier. -/
def onCard (s : Stack) (id : PartId) (change : Card → Card) : Stack :=
  { s with cards := s.cards.map fun c => if c.id == id then change c else c }

def onBackground (s : Stack) (id : PartId) (change : Background → Background) : Stack :=
  { s with backgrounds := s.backgrounds.map fun b => if b.id == id then change b else b }

def onPart (s : Stack) (id : PartId) (change : Part → Part) : Stack :=
  let each (parts : List Part) := parts.map fun p => if p.id == id then change p else p
  { s with
    cards := s.cards.map fun c => { c with parts := each c.parts }
    backgrounds := s.backgrounds.map fun b => { b with parts := each b.parts } }

def table? (s : Stack) : Component → Option PropertyTable
  | .stack => some s.properties
  | .card id => (s.card? id).map (·.properties)
  | .background id => (s.background? id).map (·.properties)
  | .part id => (s.part? id).map (·.properties)

/-- Changes the properties of a component. -/
def onTable (s : Stack) (change : PropertyTable → PropertyTable) : Component → Stack
  | .stack => { s with properties := change s.properties }
  | .card id => s.onCard id fun c => { c with properties := change c.properties }
  | .background id => s.onBackground id fun b => { b with properties := change b.properties }
  | .part id => s.onPart id fun p => { p with properties := change p.properties }

namespace Entry

/-- The value in an entry. -/
def read? (s : Stack) : Entry → Option Value
  | property component key => (s.table? component).bind (·.find? key)
  | cardText field card => ((s.part? field).map (·.cardTexts)).bind (valueAt (· == card))

/-- The stack without what an entry holds. -/
def without (s : Stack) : Entry → Stack
  | property component key => s.onTable (·.without key) component
  | cardText field card =>
    s.onPart field fun p => { p with cardTexts := dropKey (· == card) p.cardTexts }

/-- From one stack to another by writing to an entry and doing nothing else. -/
structure Written (e : Entry) (value : Value) (s s' : Stack) : Prop where
  read : e.read? s' = some value
  others : ∀ e', e' ≠ e → e'.read? s' = e'.read? s
  rest : e.without s' = e.without s

end Entry

/-! ### What is found after a change -/

variable {s : Stack} {id other : PartId}

theorem find?_map_onId {α : Type} {idOf : α → PartId} {change : α → α}
    (hid : ∀ a, idOf a = id → idOf (change a) = id) (items : List α) (other : PartId) :
    (items.map fun a => if idOf a == id then change a else a).find? (idOf · == other) =
      (items.find? (idOf · == other)).map fun a => if idOf a == id then change a else a := by
  have hsame (a : α) : idOf (if idOf a == id then change a else a) = idOf a := by
    split
    next h => rw [hid a (eq_of_beq h), eq_of_beq h]
    next => rfl
  rw [List.find?_map]
  congr 2
  funext a
  simp only [Function.comp, hsame]

theorem card?_onCard {change : Card → Card} (hid : ∀ c, c.id = id → (change c).id = id) :
    (s.onCard id change).card? other =
      (s.card? other).map fun c => if c.id == id then change c else c :=
  find?_map_onId hid s.cards other

theorem background?_onBackground {change : Background → Background}
    (hid : ∀ b, b.id = id → (change b).id = id) :
    (s.onBackground id change).background? other =
      (s.background? other).map fun b => if b.id == id then change b else b :=
  find?_map_onId hid s.backgrounds other

theorem part?_onPart {change : Part → Part} (hid : ∀ p, p.id = id → (change p).id = id) :
    (s.onPart id change).part? other =
      (s.part? other).map fun p => if p.id == id then change p else p := by
  have hparts : (s.onPart id change).allParts =
      s.allParts.map fun p => if p.id == id then change p else p := by
    simp only [allParts, onPart, List.map_append, List.map_flatMap, List.flatMap_map]
  rw [part?, hparts, find?_map_onId hid, part?]

theorem part?_onCard {change : Card → Card} (h : ∀ c, (change c).parts = c.parts) :
    (s.onCard id change).part? other = s.part? other := by
  have hparts : (s.onCard id change).allParts = s.allParts := by
    simp only [allParts, onCard, List.flatMap_map]
    congr 2
    funext c
    split
    · exact h c
    · rfl
  rw [part?, hparts, part?]

theorem part?_onBackground {change : Background → Background}
    (h : ∀ b, (change b).parts = b.parts) :
    (s.onBackground id change).part? other = s.part? other := by
  have hparts : (s.onBackground id change).allParts = s.allParts := by
    simp only [allParts, onBackground, List.flatMap_map]
    congr 2
    funext b
    split
    · exact h b
    · rfl
  rw [part?, hparts, part?]

/-- What a change to a part leaves alone is found as before. -/
theorem map_part?_onPart {β : Type} {change : Part → Part} {g : Part → β}
    (hid : ∀ p, p.id = id → (change p).id = id) (hg : ∀ p, g (change p) = g p) :
    ((s.onPart id change).part? other).map g = (s.part? other).map g := by
  rw [part?_onPart hid, Option.map_map]
  congr 1
  funext p
  simp only [Function.comp]
  split
  · exact hg p
  · rfl

theorem card?_onPart {change : Part → Part} :
    ((s.onPart id change).card? other).map (·.properties) =
      (s.card? other).map (·.properties) := by
  simp only [card?, onPart, List.find?_map, Option.map_map]
  rfl

theorem background?_onPart {change : Part → Part} :
    ((s.onPart id change).background? other).map (·.properties) =
      (s.background? other).map (·.properties) := by
  simp only [background?, onPart, List.find?_map, Option.map_map]
  rfl

theorem map_found_onId {α β : Type} {idOf : α → PartId} {set : α → α} {view : α → β}
    {change : β → β} {found : Option α} (hfound : ∀ a, found = some a → idOf a = other)
    (hset : ∀ a, view (set a) = change (view a)) :
    (found.map fun a => if idOf a == id then set a else a).map view =
      if other = id then (found.map view).map change else found.map view := by
  cases found with
  | none => simp
  | some a =>
    obtain rfl := hfound a rfl
    by_cases h : idOf a = id
    · simp [h, hset]
    · simp [h]

/-- Of all tables, only the one that is changed becomes another one. -/
theorem table?_onTable (change : PropertyTable → PropertyTable) (c c' : Component) :
    (s.onTable change c).table? c' =
      if c' = c then (s.table? c').map change else s.table? c' := by
  cases c with
  | stack => cases c' <;> rfl
  | card id =>
    cases c' with
    | stack | background other => rfl
    | card other =>
      simp only [onTable, table?, Component.card.injEq]
      rw [card?_onCard]
      · exact map_found_onId (fun c hc => (card?_eq_some hc).2) fun _ => rfl
      · exact fun _ h => h
    | part other =>
      simp only [onTable, table?, reduceCtorEq, if_false]
      rw [part?_onCard]
      exact fun _ => rfl
  | background id =>
    cases c' with
    | stack | card other => rfl
    | background other =>
      simp only [onTable, table?, Component.background.injEq]
      rw [background?_onBackground]
      · exact map_found_onId (fun b hb => (background?_eq_some hb).2) fun _ => rfl
      · exact fun _ h => h
    | part other =>
      simp only [onTable, table?, reduceCtorEq, if_false]
      rw [part?_onBackground]
      exact fun _ => rfl
  | part id =>
    cases c' with
    | stack => rfl
    | card other => exact card?_onPart
    | background other => exact background?_onPart
    | part other =>
      simp only [onTable, table?, Component.part.injEq]
      rw [part?_onPart]
      · exact map_found_onId (fun p hp => (part?_eq_some hp).2) fun _ => rfl
      · exact fun _ h => h

theorem cardTexts_onTable (change : PropertyTable → PropertyTable) (c : Component) :
    ((s.onTable change c).part? id).map (·.cardTexts) = (s.part? id).map (·.cardTexts) := by
  cases c with
  | stack => rfl
  | card other => exact congrArg _ (part?_onCard fun _ => rfl)
  | background other => exact congrArg _ (part?_onBackground fun _ => rfl)
  | part other => exact map_part?_onPart (fun _ h => h) fun _ => rfl

theorem cardTexts_onPart (change : List (PartId × Value) → List (PartId × Value)) :
    ((s.onPart id fun p => { p with cardTexts := change p.cardTexts }).part? other).map
        (·.cardTexts) =
      if other = id then ((s.part? other).map (·.cardTexts)).map change
      else (s.part? other).map (·.cardTexts) := by
  rw [part?_onPart]
  · exact map_found_onId (fun p hp => (part?_eq_some hp).2) fun _ => rfl
  · exact fun _ h => h

theorem table?_onPart {change : Part → Part} (hid : ∀ p, p.id = id → (change p).id = id)
    (h : ∀ p, (change p).properties = p.properties) (c : Component) :
    (s.onPart id change).table? c = s.table? c := by
  cases c with
  | stack => rfl
  | card other => exact card?_onPart
  | background other => exact background?_onPart
  | part other => exact map_part?_onPart hid h

/-! ### Other entries -/

namespace Entry

theorem read?_without {e e' : Entry} (h : e' ≠ e) (s : Stack) :
    e'.read? (e.without s) = e'.read? s := by
  cases e with
  | property c key =>
    cases e' with
    | property c' key' =>
      simp only [read?, without, table?_onTable]
      split
      next hc =>
        have hkey : key' ≠ key := fun hkey => h (by rw [hc, hkey])
        rw [Option.bind_map]
        exact congrArg _ (funext fun t => t.find?_without hkey)
      next => rfl
    | cardText field card => simp only [read?, without, cardTexts_onTable]
  | cardText field card =>
    cases e' with
    | property c' key' =>
      simp only [read?, without]
      rw [table?_onPart]
      · exact fun _ h => h
      · exact fun _ => rfl
    | cardText field' card' =>
      simp only [read?, without, cardTexts_onPart]
      split
      next hfield =>
        have hcard : card' ≠ card := fun hcard => h (by rw [hfield, hcard])
        simp only [Option.bind_map, Function.comp_def, valueAt_dropKey (not_same_of_ne hcard)]
      next => rfl

theorem Written.of_rest {e : Entry} {value : Value} {s s' : Stack}
    (hread : e.read? s' = some value) (hrest : e.without s' = e.without s) :
    e.Written value s s' where
  read := hread
  others e' h := by rw [← read?_without h s', hrest, read?_without h s]
  rest := hrest

end Entry

/-! ## Writing to what was found -/

variable {s' : Stack} {found : Found} {value : Value}

/-- Replacing what has an identifier and then changing it is changing it at once, if nothing else
has the identifier. -/
theorem map_replace_onId {α : Type} {idOf : α → PartId} {items : List α} {a new : α}
    {change : α → α} (honly : ∀ b ∈ items, idOf b = idOf a → b = a) (hid : idOf new = idOf a)
    (hnew : change new = change a) :
    ((items.map fun b => if idOf b == idOf new then new else b).map fun b =>
        if idOf b == idOf a then change b else b) =
      items.map fun b => if idOf b == idOf a then change b else b := by
  rw [List.map_map]
  refine List.map_congr_left fun b hb => ?_
  simp only [Function.comp, hid]
  by_cases h : idOf b = idOf a
  · obtain rfl := honly b hb h
    simp [hid, hnew]
  · simp [h]

namespace Orderly

theorem onCard_withCard (hs : s.Orderly) {c new : Card} (hc : s.card? id = some c)
    {change : Card → Card} (hid : new.id = id) (hnew : change new = change c) :
    (s.withCard new).onCard id change = s.onCard id change := by
  obtain ⟨hmem, rfl⟩ := card?_eq_some hc
  have hcards := map_replace_onId (fun d hd h => hs.card_eq_of_id_eq hd hmem h) hid hnew
  simp only [onCard, withCard, hcards]

theorem onBackground_withBackground (hs : s.Orderly) {b new : Background}
    (hb : s.background? id = some b) {change : Background → Background} (hid : new.id = id)
    (hnew : change new = change b) :
    (s.withBackground new).onBackground id change = s.onBackground id change := by
  obtain ⟨hmem, rfl⟩ := background?_eq_some hb
  have hbackgrounds :=
    map_replace_onId (fun d hd h => hs.background_eq_of_id_eq hd hmem h) hid hnew
  simp only [onBackground, withBackground, hbackgrounds]

theorem onPart_withPart (hs : s.Orderly) {p new : Part} (hp : s.part? id = some p)
    {change : Part → Part} (hid : new.id = id) (hnew : change new = change p) :
    (s.withPart new).onPart id change = s.onPart id change := by
  obtain ⟨hmem, rfl⟩ := part?_eq_some hp
  have hparts (parts : List Part) (hsub : ∀ q ∈ parts, q ∈ s.allParts) :=
    map_replace_onId (fun q hq h => hs.part_eq_of_id_eq (hsub q hq) hmem h) hid hnew
  simp only [onPart, withPart, List.map_map, Stack.mk.injEq, true_and, and_true]
  constructor
  · refine List.map_congr_left fun c hc => ?_
    exact congrArg (fun parts => { c with parts })
      (hparts c.parts fun q hq => mem_allParts.2 (.inl ⟨c, hc, hq⟩))
  · refine List.map_congr_left fun b hb => ?_
    exact congrArg (fun parts => { b with parts })
      (hparts b.parts fun q hq => mem_allParts.2 (.inr ⟨b, hb, hq⟩))

end Orderly

theorem card?_withCard {c new : Card} (hc : s.card? id = some c) (hid : new.id = id) :
    (s.withCard new).card? id = some new := by
  have hnew : (s.onCard new.id fun _ => new).card? id = some new := by
    rw [card?_onCard fun _ _ => rfl, hc, Option.map_some, (card?_eq_some hc).2, hid]
    simp
  exact hnew

theorem background?_withBackground {b new : Background} (hb : s.background? id = some b)
    (hid : new.id = id) : (s.withBackground new).background? id = some new := by
  have hnew : (s.onBackground new.id fun _ => new).background? id = some new := by
    rw [background?_onBackground fun _ _ => rfl, hb, Option.map_some, (background?_eq_some hb).2,
      hid]
    simp
  exact hnew

theorem part?_withPart {p new : Part} (hp : s.part? id = some p) (hid : new.id = id) :
    (s.withPart new).part? id = some new := by
  have hnew : (s.onPart new.id fun _ => new).part? id = some new := by
    rw [part?_onPart fun _ _ => rfl, hp, Option.map_some, (part?_eq_some hp).2, hid]
    simp
  exact hnew

/-- Another table in the place of one is found there. -/
theorem tableOf?_withTable {r : PartRef} {t : PropertyTable} (ht : s.tableOf? r = some t)
    (t' : PropertyTable) : (s.withTable t' r).tableOf? r = some t' := by
  cases r with
  | stack => rfl
  | card id =>
    obtain ⟨c, hc, rfl⟩ := Option.map_eq_some_iff.1 ht
    simp only [withTable, hc]
    rw [tableOf?, card?_withCard hc]
    · rfl
    · exact (card?_eq_some hc).2
  | background id =>
    obtain ⟨b, hb, rfl⟩ := Option.map_eq_some_iff.1 ht
    simp only [withTable, hb]
    rw [tableOf?, background?_withBackground hb]
    · rfl
    · exact (background?_eq_some hb).2
  | part kind layer id =>
    obtain ⟨p, hp, rfl⟩ := Option.map_eq_some_iff.1 ht
    simp only [withTable, hp]
    rw [tableOf?, part?_withPart hp]
    · rfl
    · exact (part?_eq_some hp).2

theorem table?_component (s : Stack) (r : PartRef) : s.table? r.component = s.tableOf? r := by
  cases r <;> rfl

/-- Another table in the place of one leaves the rest of the stack alone. -/
theorem Orderly.onTable_withTable (hs : s.Orderly) {r : PartRef} {t t' : PropertyTable}
    (ht : s.tableOf? r = some t) (change : PropertyTable → PropertyTable)
    (h : change t' = change t) :
    (s.withTable t' r).onTable change r.component = s.onTable change r.component := by
  cases r with
  | stack =>
    cases ht
    simp only [withTable, onTable, PartRef.component, h]
  | card id =>
    obtain ⟨c, hc, rfl⟩ := Option.map_eq_some_iff.1 ht
    simp only [withTable, hc, PartRef.component]
    exact hs.onCard_withCard hc (card?_eq_some hc).2 (by rw [h])
  | background id =>
    obtain ⟨b, hb, rfl⟩ := Option.map_eq_some_iff.1 ht
    simp only [withTable, hb, PartRef.component]
    exact hs.onBackground_withBackground hb (background?_eq_some hb).2 (by rw [h])
  | part kind layer id =>
    obtain ⟨p, hp, rfl⟩ := Option.map_eq_some_iff.1 ht
    simp only [withTable, hp, PartRef.component]
    exact hs.onPart_withPart hp (part?_eq_some hp).2 (by rw [h])

theorem tableOf_eq_ok {r : PartRef} {t : PropertyTable} (h : s.tableOf r = .ok t) :
    s.tableOf? r = some t := by
  unfold tableOf at h
  split at h
  next ht =>
    cases h
    exact ht
  next => cases h

/-- Setting a property writes to one entry. -/
theorem Orderly.withTable_written (hs : s.Orderly) {r : PartRef} {t t' : PropertyTable}
    {name : String} (ht : s.tableOf? r = some t) (hset : t.set name value = .ok t') :
    (Entry.property r.component (Text.lowerString name)).Written value s (s.withTable t' r) := by
  have hrest := PropertyTable.without_set hset
  refine .of_rest ?_ (hs.onTable_withTable ht (·.without _) hrest)
  rw [Entry.read?, table?_component, tableOf?_withTable ht, Option.bind_some,
    PropertyTable.find?_set hset]

/-- Setting what a background field holds on a card writes to one entry. -/
theorem Orderly.withCardText_written (hs : s.Orderly) {p : Part} {card : PartId}
    (hp : s.part? id = some p) :
    (Entry.cardText id card).Written value s
      (s.withPart { p with cardTexts := Part.putCardText card value p.cardTexts }) := by
  have hid := (part?_eq_some hp).2
  have hputs := Part.puts_cardText card value
  refine .of_rest ?_ (hs.onPart_withPart hp hid ?_)
  · rw [Entry.read?, part?_withPart hp]
    · exact hputs.valueAt_eq p.cardTexts
    · exact hid
  · exact congrArg (fun texts => { p with cardTexts := texts }) (hputs.dropKey_eq p.cardTexts)

/-! ### Contents and properties -/

/-- The entry with what a button or field holds: its text on the card it is seen from, if it has
one for each card, and a property of its own otherwise. -/
def entryOfContents? (s : Stack) (found : Found) : Option Entry :=
  match found.part with
  | .part _ _ id =>
    (s.part? id).map fun p =>
      match found.card, p.isPerCard with
      | some card, true => .cardText id card
      | _, _ => .property (.part id) (Text.lowerString (Part.contentsProperty p.kind))
  | _ => none

/-- The entry of a property that can be set. -/
def entryOfProperty? (s : Stack) (found : Found) (key : String) : Option Entry :=
  if isContentsKey found.part key then s.entryOfContents? found
  else some (.property found.part.component key)

theorem Orderly.setContents_written (hs : s.Orderly)
    (h : s.setContents found value = .ok s') :
    ∃ e, s.entryOfContents? found = some e ∧ e.Written value s s' := by
  obtain ⟨part, card⟩ := found
  rw [setContents_eq] at h
  unfold entryOfContents?
  cases part with
  | stack | card _ | background _ => cases h
  | part kind layer id =>
    dsimp only at h ⊢
    cases hp : s.part? id with
    | none =>
      rw [hp] at h
      cases h
    | some p =>
      rw [hp] at h
      obtain ⟨new, hnew, h⟩ := Failure.bind_eq_ok.1 h
      cases h
      have hshared (hnew : p.setSharedText value = .ok new) :
          (Entry.property (.part id) (Text.lowerString (Part.contentsProperty p.kind))).Written
            value s (s.withPart new) := by
        obtain ⟨t, ht, hnew⟩ := Failure.bind_eq_ok.1 hnew
        cases hnew
        have htable : s.tableOf? (.part kind layer id) = some p.properties := by
          rw [tableOf?, hp, Option.map_some]
        have hwritten := hs.withTable_written htable ht
        rwa [withTable, hp] at hwritten
      rw [Part.setText_eq] at hnew
      refine ⟨_, rfl, ?_⟩
      cases card with
      | none => exact hshared hnew
      | some card =>
        dsimp only at hnew ⊢
        cases hpercard : p.isPerCard with
        | true =>
          rw [hpercard, if_pos rfl] at hnew
          cases hnew
          exact hs.withCardText_written hp
        | false =>
          rw [hpercard, if_neg Bool.false_ne_true] at hnew
          exact hshared hnew

theorem Orderly.setProperty_written (hs : s.Orderly) {name : String}
    (h : s.setProperty found name value = .ok s') :
    ∃ e, s.entryOfProperty? found (Text.lowerString name) = some e ∧ e.Written value s s' := by
  simp only [setProperty_eq] at h
  unfold entryOfProperty?
  split at h
  · cases h
  split at h
  next hkey =>
    rw [if_pos hkey]
    exact hs.setContents_written h
  next hkey =>
    rw [if_neg hkey]
    obtain ⟨t, ht, h⟩ := Failure.bind_eq_ok.1 h
    obtain ⟨t', hset, h⟩ := Failure.bind_eq_ok.1 h
    cases h
    exact ⟨_, rfl, hs.withTable_written (tableOf_eq_ok ht) hset⟩

end Stack

end CardScript
