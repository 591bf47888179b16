import CardScript.Proofs.Stack.FieldTexts
import Mathlib.Data.List.Forall2

/-!
# Which snapshots open

A snapshot opens if every card lies on one of the backgrounds and holds texts only for fields of it
(`CardSnapshot.Fits`); otherwise opening fails because of the first card that does not fit
(`CardSnapshot.Flaw`). Fields go by their property `name`, which a further property of the snapshot
may have set. Nothing else can fail: what a card holds for a field is written to the field, and
fields of an opened background can always be written to (`Part.Depicts.exists_setText`). While cards
are added one by one the stack depicts what it was made from (`Stack.Filled`), with identifiers in
ascending order.
-/

namespace CardScript

/-! ## The first flaw -/

section FirstFlaw

variable {α β : Type} {Good : α → Prop} {Flaw : α → Failure → Prop}

/-- The first of the items that is not good has the flaw. -/
def FirstFlaw (Good : α → Prop) (Flaw : α → Failure → Prop) (items : List α) (e : Failure) : Prop :=
  ∃ before a after, items = before ++ a :: after ∧ (∀ b ∈ before, Good b) ∧ Flaw a e

theorem FirstFlaw.of_head {a : α} {e : Failure} (h : Flaw a e) (items : List α) :
    FirstFlaw Good Flaw (a :: items) e :=
  ⟨[], a, items, rfl, nofun, h⟩

theorem FirstFlaw.cons {a : α} {items : List α} {e : Failure} (ha : Good a)
    (h : FirstFlaw Good Flaw items e) : FirstFlaw Good Flaw (a :: items) e := by
  obtain ⟨before, b, after, rfl, hbefore, hb⟩ := h
  exact ⟨a :: before, b, after, rfl, List.forall_mem_cons.2 ⟨ha, hbefore⟩, hb⟩

theorem all_good_or_firstFlaw (h : ∀ a, Good a ∨ ∃ e, Flaw a e) (items : List α) :
    (∀ a ∈ items, Good a) ∨ ∃ e, FirstFlaw Good Flaw items e := by
  induction items with
  | nil => exact .inl nofun
  | cons a items ih =>
    rcases h a with ha | ⟨e, ha⟩
    · rcases ih with hitems | ⟨e, hitems⟩
      · exact .inl (List.forall_mem_cons.2 ⟨ha, hitems⟩)
      · exact .inr ⟨e, hitems.cons ha⟩
    · exact .inr ⟨e, .of_head ha items⟩

variable {f : β → α → Except Failure β} {P : List α → β → Prop} {items : List α} {b : β}

/-- A fold over good items succeeds, and `P` holds in the end of what has been done. -/
theorem foldlM_of_good
    (step : ∀ done b a, P done b → Good a → ∃ b', f b a = .ok b' ∧ P (done ++ [a]) b')
    (hb : P [] b) (h : ∀ a ∈ items, Good a) :
    ∃ b', items.foldlM f b = .ok b' ∧ P items b' := by
  induction items generalizing P b with
  | nil => exact ⟨b, rfl, hb⟩
  | cons a items ih =>
    obtain ⟨ha, hitems⟩ := List.forall_mem_cons.1 h
    obtain ⟨b₁, hstep, hb₁⟩ := step [] b a hb ha
    obtain ⟨b', hfold, hb'⟩ :=
      ih (P := fun done => P (a :: done)) (fun done => step (a :: done)) hb₁ hitems
    refine ⟨b', ?_, hb'⟩
    rw [List.foldlM_cons, hstep]
    exact hfold

/-- A fold fails with the first flaw it comes to. -/
theorem foldlM_of_firstFlaw
    (step : ∀ done b a, P done b → Good a → ∃ b', f b a = .ok b' ∧ P (done ++ [a]) b')
    (stop : ∀ done b a e, P done b → Flaw a e → f b a = .error e)
    (hb : P [] b) {e : Failure} (h : FirstFlaw Good Flaw items e) :
    items.foldlM f b = .error e := by
  obtain ⟨before, a, after, rfl, hbefore, ha⟩ := h
  obtain ⟨b', hfold, hb'⟩ := foldlM_of_good step hb hbefore
  rw [List.foldlM_append, hfold]
  show (a :: after).foldlM f b' = .error e
  rw [List.foldlM_cons, stop before b' a e hb' ha]
  rfl

end FirstFlaw

/-! ## Snapshots that fit -/

/-- The name a part starts with. A further property `name` counts for more than the name. -/
def PartSnapshot.openingName (p : PartSnapshot) : String :=
  ((p.further? "name").getD (.ofText p.name)).text

namespace BackgroundSnapshot

/-- The background has a field of this name, in any ASCII letter case. -/
def HasField (b : BackgroundSnapshot) (name : String) : Prop :=
  ∃ field ∈ b.fields, Text.sameIgnoringAsciiCase field.openingName name = true

/-- The text is for a field that is not there, which the failure names. -/
def Lacks (b : BackgroundSnapshot) (entry : String × String) (e : Failure) : Prop :=
  ¬ b.HasField entry.1 ∧ e = .noSuchPart s!"background field \"{entry.1}\""

theorem hasField_or_lacks (b : BackgroundSnapshot) (entry : String × String) :
    b.HasField entry.1 ∨ ∃ e, b.Lacks entry e := by
  by_cases h : b.HasField entry.1
  · exact .inl h
  · exact .inr ⟨_, h, rfl⟩

end BackgroundSnapshot

namespace CardSnapshot

/-- The card lies on one of the backgrounds and holds texts only for fields of it. -/
def Fits (backgrounds : List BackgroundSnapshot) (c : CardSnapshot) : Prop :=
  ∃ b, backgrounds[c.background]? = some b ∧
    ∀ entry ∈ c.backgroundText.entries, b.HasField entry.1

/-- Why a card does not fit: there is no such background, or else the first text for a field that is
not there. -/
inductive Flaw (backgrounds : List BackgroundSnapshot) (c : CardSnapshot) : Failure → Prop
  | background : backgrounds.length ≤ c.background →
    Flaw backgrounds c (.semantic (.missingBackground c.name c.background))
  | text : backgrounds[c.background]? = some b →
    FirstFlaw (fun entry => b.HasField entry.1) b.Lacks c.backgroundText.entries e →
    Flaw backgrounds c e

theorem fits_or_flaw (backgrounds : List BackgroundSnapshot) (c : CardSnapshot) :
    c.Fits backgrounds ∨ ∃ e, c.Flaw backgrounds e := by
  cases hb : backgrounds[c.background]? with
  | none => exact .inr ⟨_, .background (List.getElem?_eq_none_iff.1 hb)⟩
  | some b =>
    rcases all_good_or_firstFlaw b.hasField_or_lacks c.backgroundText.entries with hall | ⟨e, hflaw⟩
    · exact .inl ⟨b, hb, hall⟩
    · exact .inr ⟨e, .text hb hflaw⟩

end CardSnapshot

/-! ## What opened parts depict -/

/-- The part is as in the snapshot, except that a text may have been written to it. -/
structure Part.Depicts (p : Part) (kind : PartKind) (snapshot : PartSnapshot) : Prop where
  kind_eq : p.kind = kind
  script_eq : p.script = snapshot.script
  property_eq : ∀ key, key ≠ "text" → p.properties.find? key = (snapshot.table kind).find? key
  text_isSome : kind = .field → (p.properties.find? "text").isSome
  readOnly_eq : p.properties.readOnly = []

theorem lowerString_name : Text.lowerString "name" = "name" := by decide +kernel

theorem PartSnapshot.find?_table_name (p : PartSnapshot) (kind : PartKind) :
    (p.table kind).find? "name" = some ((p.further? "name").getD (.ofText p.name)) := by
  have hnames : ∀ name ∈ ["visible", "contents", "hilite", "enabled", "style", "text", "lockText",
      "sharedText", "dontWrap"], Text.lowerString name ≠ "name" := by decide +kernel
  simp only [List.forall_mem_cons] at hnames
  obtain ⟨hvisible, hcontents, hhilite, henabled, hstyle, htext, hlock, hshared, hwrap, -⟩ := hnames
  cases kind with
  | button =>
    simp only [table, PropertyTable.find?_foldl_define, PropertyTable.find?_define, if_neg hvisible,
      if_neg hcontents, if_neg hhilite, if_neg henabled, if_neg hstyle, if_pos lowerString_name]
    rw [further?]
    cases List.find? _ _ <;> rfl
  | field =>
    simp only [table, PropertyTable.find?_foldl_define, PropertyTable.find?_define, if_neg hvisible,
      if_neg htext, if_neg hlock, if_neg hshared, if_neg hwrap, if_neg hstyle,
      if_pos lowerString_name]
    rw [further?]
    cases List.find? _ _ <;> rfl

namespace Part.Depicts

variable {p q : Part} {kind : PartKind} {snapshot : PartSnapshot} {card : PartId} {value : Value}

theorem name_eq (h : p.Depicts kind snapshot) : p.name = snapshot.openingName := by
  rw [name, PropertyTable.textOf, h.property_eq "name" (by decide), snapshot.find?_table_name]
  rfl

/-- Fields can be written to. -/
theorem exists_setText (h : p.Depicts .field snapshot) (card : PartId) (value : Value) :
    ∃ q, p.setText (some card) value = .ok q := by
  rw [setText_eq]
  dsimp only
  split
  · exact ⟨_, rfl⟩
  · have hopen : Text.lowerString "text" ∉ p.properties.readOnly := by
      rw [h.readOnly_eq]
      exact List.not_mem_nil
    have hthere : (p.properties.find? (Text.lowerString "text")).isSome := by
      rw [lowerString_text]
      exact h.text_isSome rfl
    obtain ⟨t, ht, -⟩ := PropertyTable.exists_set hopen hthere value
    refine ⟨{ p with properties := t }, ?_⟩
    rw [setSharedText, h.kind_eq, contentsProperty, ht]
    rfl

theorem setText (h : p.Depicts .field snapshot) (hset : p.setText (some card) value = .ok q) :
    q.Depicts .field snapshot := by
  rw [Part.setText_eq] at hset
  dsimp only at hset
  split at hset
  · cases hset
    exact ⟨h.kind_eq, h.script_eq, h.property_eq, h.text_isSome, h.readOnly_eq⟩
  · obtain ⟨t, ht, hset⟩ := Failure.bind_eq_ok.1 hset
    cases hset
    rw [h.kind_eq, contentsProperty] at ht
    refine ⟨h.kind_eq, h.script_eq, fun key hkey => ?_, fun _ => ?_, ?_⟩
    · have hother := PropertyTable.find?_set_ne ht (by rw [lowerString_text]; exact hkey)
      exact hother.trans (h.property_eq key hkey)
    · have htext := PropertyTable.find?_set ht
      rw [lowerString_text] at htext
      rw [htext]
      rfl
    · rw [PropertyTable.set_eq_ok ht]
      exact h.readOnly_eq

end Part.Depicts

theorem openParts_depicts (kind : PartKind) (layer : Layer) (owner next : PartId)
    (snapshots : List PartSnapshot) :
    List.Forall₂ (fun p => Part.Depicts p kind) (openParts kind layer owner next snapshots)
      snapshots := by
  induction snapshots generalizing next with
  | nil => exact .nil
  | cons snapshot snapshots ih =>
    refine .cons ⟨rfl, rfl, fun _ _ => rfl, fun hkind => ?_, ?_⟩ (ih (next + 1))
    · subst hkind
      dsimp only
      rw [snapshot.find?_table_text]
      rfl
    · cases kind with
      | button => exact PropertyTable.readOnly_foldl_define ..
      | field => exact snapshot.readOnly_table

/-- Buttons as in the snapshots, and then fields. -/
def LayerDepicts (parts : List Part) (buttons fields : List PartSnapshot) : Prop :=
  ∃ front back, parts = front ++ back ∧
    List.Forall₂ (fun p => Part.Depicts p .button) front buttons ∧
    List.Forall₂ (fun p => Part.Depicts p .field) back fields

theorem LayerDepicts.opened (layer : Layer) (owner : PartId) (buttons fields : List PartSnapshot) :
    LayerDepicts (openLayer layer owner buttons fields) buttons fields :=
  ⟨_, _, rfl, openParts_depicts .., openParts_depicts ..⟩

/-! ## Writing texts -/

/-- What is put in the place of the one item with its identifier depicts what that item did. -/
theorem forall₂_replace {α β : Type} {R : α → β → Prop} {items : List α} {images : List β}
    (idOf : α → PartId) {a a' : α} (h : List.Forall₂ R items images)
    (honly : ∀ other ∈ items, idOf other = idOf a' → other = a)
    (ha' : ∀ image, R a image → R a' image) :
    List.Forall₂ R (items.map fun other => if idOf other == idOf a' then a' else other) images := by
  rw [List.forall₂_map_left_iff]
  refine ((List.forall₂_and_left _ _).2 ⟨honly, h⟩).imp fun other image hboth => ?_
  obtain ⟨honly, hother⟩ := hboth
  split
  next hid =>
    obtain rfl := honly (eq_of_beq hid)
    exact ha' image hother
  next => exact hother

section Writing

variable {kind : PartKind} {parts : List Part} {snapshots : List PartSnapshot} {p q : Part}

theorem exists_depicted (h : List.Forall₂ (fun p => Part.Depicts p kind) parts snapshots)
    (hp : p ∈ parts) : ∃ snapshot, p.Depicts kind snapshot := by
  induction h with
  | nil => cases hp
  | cons hfirst _ ih =>
    rcases List.mem_cons.1 hp with rfl | hp
    · exact ⟨_, hfirst⟩
    · exact ih hp

/-- Buttons come first, so a field is among what follows them. -/
theorem mem_back_of_field {front back : List Part} (hkind : p.kind = .field)
    (h : List.Forall₂ (fun p => Part.Depicts p .button) front snapshots)
    (hp : p ∈ front ++ back) : p ∈ back := by
  rcases List.mem_append.1 hp with hp | hp
  · obtain ⟨_, hdepicts⟩ := exists_depicted h hp
    rw [hdepicts.kind_eq] at hkind
    cases hkind
  · exact hp

theorem exists_named_iff (h : List.Forall₂ (fun p => Part.Depicts p kind) parts snapshots)
    (name : String) :
    (∃ p ∈ parts, Text.sameIgnoringAsciiCase p.name name = true) ↔
      ∃ snapshot ∈ snapshots, Text.sameIgnoringAsciiCase snapshot.openingName name = true := by
  induction h with
  | nil => simp
  | cons hfirst _ ih => rw [List.exists_mem_cons_iff, List.exists_mem_cons_iff, ih, hfirst.name_eq]

/-- Another field in the place of one depicts what that one did. -/
theorem replacePart_depicts (h : List.Forall₂ (fun p => Part.Depicts p kind) parts snapshots)
    (honly : ∀ r ∈ parts, r.id = q.id → r = p) (hkind : p.kind = .field)
    (hq : ∀ snapshot, p.Depicts .field snapshot → q.Depicts .field snapshot) :
    List.Forall₂ (fun p => Part.Depicts p kind) (Stack.replacePart q parts) snapshots := by
  refine forall₂_replace (·.id) h honly fun snapshot hp => ?_
  obtain rfl : .field = kind := hkind.symm.trans hp.kind_eq
  exact hq snapshot hp

end Writing

/-- The background is as in the snapshot, except that texts may have been written to its fields. -/
structure Background.Depicts (b : Background) (snapshot : BackgroundSnapshot) : Prop where
  name_eq : b.name = snapshot.name
  script_eq : b.script = snapshot.script
  parts : LayerDepicts b.parts snapshot.buttons snapshot.fields

namespace Background.Depicts

variable {b b' : Background} {snapshot : BackgroundSnapshot} {card : PartId} {called text : String}

theorem opened (snapshot : BackgroundSnapshot) (id : PartId) :
    (snapshot.toBackground id).Depicts snapshot := by
  refine ⟨?_, rfl, .opened ..⟩
  have hother : Text.lowerString "dontSearch" ≠ "name" := by decide +kernel
  simp only [Background.name, PropertyTable.textOf, BackgroundSnapshot.toBackground,
    Background.blank, PropertyTable.find?_define, if_pos lowerString_name, if_neg hother]
  rfl

/-- The field of a name is found on the background if the snapshot has one. -/
theorem exists_field_iff (h : b.Depicts snapshot) (called : String) :
    (∃ p ∈ b.parts, (p.kind == .field && Text.sameIgnoringAsciiCase p.name called) = true) ↔
      snapshot.HasField called := by
  obtain ⟨front, back, hparts, hfront, hback⟩ := h.parts
  rw [BackgroundSnapshot.HasField, ← exists_named_iff hback, hparts]
  constructor
  · rintro ⟨p, hp, htest⟩
    obtain ⟨hkind, hname⟩ := Bool.and_eq_true_iff.1 htest
    exact ⟨p, mem_back_of_field (eq_of_beq hkind) hfront hp, hname⟩
  · rintro ⟨p, hp, hname⟩
    obtain ⟨_, hdepicts⟩ := exists_depicted hback hp
    refine ⟨p, List.mem_append_right _ hp, ?_⟩
    rw [hdepicts.kind_eq, hname]
    rfl

theorem fill_of_lacks (h : b.Depicts snapshot) {entry : String × String} {e : Failure}
    (hlacks : snapshot.Lacks entry e) : b.fill card entry.1 entry.2 = .error e := by
  obtain ⟨hlacks, rfl⟩ := hlacks
  rw [← h.exists_field_iff] at hlacks
  unfold fill
  split
  next field hfield =>
    exact absurd ⟨field, List.mem_of_find?_eq_some hfield, (List.find?_some hfield :)⟩ hlacks
  next => rfl

theorem exists_fill (h : b.Depicts snapshot) (hfield : snapshot.HasField called) (card : PartId)
    (text : String) : ∃ b', b.fill card called text = .ok b' := by
  obtain ⟨p, hp, htest⟩ := (h.exists_field_iff called).2 hfield
  unfold fill
  split
  next field hfind =>
    have hmem := List.mem_of_find?_eq_some hfind
    obtain ⟨hkind, -⟩ := Bool.and_eq_true_iff.1 (List.find?_some hfind :)
    obtain ⟨front, back, hparts, hfront, hback⟩ := h.parts
    rw [hparts] at hmem
    obtain ⟨_, hdepicts⟩ :=
      exists_depicted hback (mem_back_of_field (eq_of_beq hkind) hfront hmem)
    obtain ⟨field', hset⟩ := hdepicts.exists_setText card (.ofText text)
    exact ⟨_, by rw [hset]; rfl⟩
  next hnone => exact absurd htest (List.find?_eq_none.1 hnone p hp)

theorem fill (h : b.Depicts snapshot) (hnodup : b.ids.Nodup)
    (hfill : b.fill card called text = .ok b') : b'.Depicts snapshot := by
  unfold Background.fill at hfill
  split at hfill
  next field hfind =>
    obtain ⟨field', hset, hfill⟩ := Failure.bind_eq_ok.1 hfill
    cases hfill
    have hmem := List.mem_of_find?_eq_some hfind
    obtain ⟨hkind, -⟩ := Bool.and_eq_true_iff.1 (List.find?_some hfind :)
    obtain ⟨hid, -⟩ := Part.of_outline_eq (Part.outline_setText hset)
    have honly : ∀ r ∈ b.parts, r.id = field'.id → r = field := fun r hr hr' =>
      List.inj_on_of_nodup_map hnodup.of_cons hr hmem (hr'.trans hid)
    obtain ⟨front, back, hparts, hfront, hback⟩ := h.parts
    rw [hparts] at honly
    obtain ⟨honlyFront, honlyBack⟩ := List.forall_mem_append.1 honly
    refine ⟨h.name_eq, h.script_eq, Stack.replacePart field' front, Stack.replacePart field' back,
      ?_, ?_, ?_⟩
    · simp only [hparts, Stack.replacePart, List.map_append]
    · exact replacePart_depicts hfront honlyFront (eq_of_beq hkind) fun _ h => h.setText hset
    · exact replacePart_depicts hback honlyBack (eq_of_beq hkind) fun _ h => h.setText hset
  next => cases hfill

end Background.Depicts

namespace Background

variable {b b' : Background} {snapshot : BackgroundSnapshot} {card : PartId}
  {texts : List (String × String)}

/-- The background depicts the snapshot, and its parts can be told apart. -/
structure Pictures (b : Background) (snapshot : BackgroundSnapshot) : Prop where
  depicts : b.Depicts snapshot
  ids_nodup : b.ids.Nodup

theorem Pictures.fill {called text : String} (h : b.Pictures snapshot)
    (hfill : b.fill card called text = .ok b') : b'.Pictures snapshot := by
  refine ⟨h.depicts.fill h.ids_nodup hfill, ?_⟩
  rw [← ids_outline, outline_fill h.ids_nodup hfill, ids_outline]
  exact h.ids_nodup

theorem Pictures.fillAll (h : b.Pictures snapshot) (hfill : b.fillAll card texts = .ok b') :
    b'.Pictures snapshot :=
  Failure.foldlM_keeps (P := (Pictures · snapshot)) (fun _ _ _ h hfill => h.fill hfill) h hfill

theorem fillAll_eq (b : Background) (card : PartId) (texts : List (String × String)) :
    b.fillAll card texts = texts.foldlM (fun b entry => b.fill card entry.1 entry.2) b := rfl

theorem fill_step (snapshot : BackgroundSnapshot) (card : PartId) (_ : List (String × String))
    (b : Background) (entry : String × String) (h : b.Pictures snapshot)
    (hentry : snapshot.HasField entry.1) :
    ∃ b', b.fill card entry.1 entry.2 = .ok b' ∧ b'.Pictures snapshot := by
  obtain ⟨b', hfill⟩ := h.depicts.exists_fill hentry card entry.2
  exact ⟨b', hfill, h.fill hfill⟩

theorem Pictures.exists_fillAll (h : b.Pictures snapshot) (card : PartId)
    (htexts : ∀ entry ∈ texts, snapshot.HasField entry.1) :
    ∃ b', b.fillAll card texts = .ok b' := by
  rw [fillAll_eq]
  obtain ⟨b', hfill, -⟩ := foldlM_of_good (fill_step snapshot card) h htexts
  exact ⟨b', hfill⟩

theorem Pictures.fillAll_of_firstFlaw (h : b.Pictures snapshot) (card : PartId) {e : Failure}
    (hflaw : FirstFlaw (fun entry => snapshot.HasField entry.1) snapshot.Lacks texts e) :
    b.fillAll card texts = .error e := by
  rw [fillAll_eq]
  refine foldlM_of_firstFlaw (fill_step snapshot card) ?_ h hflaw
  intro _ b entry e h hlacks
  exact h.depicts.fill_of_lacks hlacks

end Background

/-! ## Putting the stack together -/

/-- The card is as in the snapshot, on the background with the identifier at that place. -/
structure Card.Depicts (known : List PartId) (c : Card) (snapshot : CardSnapshot) : Prop where
  background_eq : known[snapshot.background]? = some c.background
  name_eq : c.name = snapshot.name
  script_eq : c.script = snapshot.script
  parts : LayerDepicts c.parts snapshot.buttons snapshot.fields

theorem Card.Depicts.opened {known : List PartId} {snapshot : CardSnapshot} {background : PartId}
    (h : known[snapshot.background]? = some background) (id : PartId) :
    (snapshot.toCard id background).Depicts known snapshot := by
  refine ⟨h, ?_, rfl, .opened ..⟩
  have hmarked : Text.lowerString "marked" ≠ "name" := by decide +kernel
  have hsearch : Text.lowerString "dontSearch" ≠ "name" := by decide +kernel
  simp only [Card.name, PropertyTable.textOf, CardSnapshot.toCard, Card.blank,
    PropertyTable.find?_define, if_pos lowerString_name, if_neg hmarked, if_neg hsearch]
  rfl

/-- Opened backgrounds take up identifiers in a row. -/
theorem exists_ids_openBackgrounds (next : PartId) (snapshots : List BackgroundSnapshot) :
    ∃ count, (openBackgrounds next snapshots).flatMap (·.ids) = List.range' next count := by
  induction snapshots generalizing next with
  | nil => exact ⟨0, rfl⟩
  | cons b snapshots ih =>
    have hids : (b.toBackground next).ids = List.range' next b.size := ids_openLayer ..
    obtain ⟨count, hcount⟩ := ih (next + b.size)
    refine ⟨b.size + count, ?_⟩
    rw [openBackgrounds, List.flatMap_cons, hids, hcount, List.range'_append_1]

theorem openBackgrounds_depicts (next : PartId) (snapshots : List BackgroundSnapshot) :
    List.Forall₂ Background.Depicts (openBackgrounds next snapshots) snapshots := by
  induction snapshots generalizing next with
  | nil => exact .nil
  | cons b snapshots ih => exact .cons (.opened b next) (ih (next + b.size))

namespace Stack

variable {s t : Stack} {known : List PartId} {backgrounds : List BackgroundSnapshot}
  {done : List CardSnapshot} {c : CardSnapshot}

/-- The identifiers in use, in the order of backgrounds, then of cards. -/
def idsInOrder (s : Stack) : List PartId :=
  s.backgrounds.flatMap (·.ids) ++ s.cards.flatMap (·.ids)

/-- The stack has been made from these backgrounds and cards. -/
structure Filled (known : List PartId) (backgrounds : List BackgroundSnapshot)
    (cards : List CardSnapshot) (s : Stack) : Prop where
  taking : s.Taking known
  backgrounds : List.Forall₂ Background.Depicts s.backgrounds backgrounds
  cards : List.Forall₂ (Card.Depicts known) s.cards cards
  ascending : s.idsInOrder.Pairwise (· < ·)

theorem idsInOrder_outline (s : Stack) : s.outline.idsInOrder = s.idsInOrder := by
  simp [idsInOrder, outline, List.flatMap_map]

namespace Filled

/-- Texts of a card are written to the fields of its background. -/
theorem fillBackground (h : s.Filled known backgrounds done) {b b' : Background} {card : PartId}
    {texts : List (String × String)} (hb : b ∈ s.backgrounds)
    (hfill : b.fillAll card texts = .ok b') :
    (s.withBackground b').Filled known backgrounds done := by
  have hs := h.taking.orderly
  have hnodup := hs.background_ids_nodup hb
  have houtline := Background.outline_fillAll hnodup hfill
  have hsame := hs.outline_withBackground hb houtline
  refine ⟨h.taking.of_outline_eq hsame, ?_, h.cards, ?_⟩
  · have hid : b'.id = b.id := Background.of_outline_eq houtline
    have honly : ∀ d ∈ s.backgrounds, d.id = b'.id → d = b := fun d hd hdb =>
      hs.background_eq_of_id_eq hd hb (hdb.trans hid)
    refine forall₂_replace (·.id) h.backgrounds honly fun snapshot hdepicts => ?_
    have hpictures : b.Pictures snapshot := ⟨hdepicts, hnodup⟩
    exact (hpictures.fillAll hfill).depicts
  · rw [← idsInOrder_outline, hsame, idsInOrder_outline]
    exact h.ascending

/-- A card is put at the end, with identifiers that have not been given out. -/
theorem appendCard (h : s.Filled known backgrounds done) {background : PartId}
    (hbackground : known[c.background]? = some background) :
    Filled known backgrounds (done ++ [c]) { s with
      nextId := s.nextId + c.size
      cards := s.cards ++ [c.toCard s.nextId background] } := by
  refine ⟨h.taking.appendCard c hbackground, h.backgrounds, ?_, ?_⟩
  · exact List.rel_append h.cards (.cons (.opened hbackground s.nextId) .nil)
  · have hids : (c.toCard s.nextId background).ids = List.range' s.nextId c.size :=
      ids_openLayer ..
    have hsplit : idsInOrder { s with
        nextId := s.nextId + c.size
        cards := s.cards ++ [c.toCard s.nextId background] } =
        s.idsInOrder ++ List.range' s.nextId c.size := by
      simp [idsInOrder, hids]
    rw [hsplit, List.pairwise_append]
    refine ⟨h.ascending, List.pairwise_lt_range', ?_⟩
    intro id hid next hnext
    have hlt : id < s.nextId := by
      apply h.taking.orderly.ids_lt
      exact List.perm_append_comm.mem_iff.1 hid
    exact Nat.lt_of_lt_of_le hlt (List.mem_range'_1.1 hnext).1

theorem exists_background (h : s.Filled known backgrounds done) {i : Nat}
    {snapshot : BackgroundSnapshot} (hi : backgrounds[i]? = some snapshot) :
    ∃ b ∈ s.backgrounds, known[i]? = some b.id ∧ b.Pictures snapshot := by
  obtain ⟨hlt, rfl⟩ := List.getElem?_eq_some_iff.1 hi
  have hlt' : i < s.backgrounds.length := h.backgrounds.length_eq ▸ hlt
  have hmem : s.backgrounds[i] ∈ s.backgrounds := List.getElem_mem hlt'
  refine ⟨s.backgrounds[i], hmem, ?_, h.backgrounds.get hlt' hlt, ?_⟩
  · rw [← h.taking.backgrounds_eq, List.getElem?_map, List.getElem?_eq_getElem hlt']
    rfl
  · exact h.taking.orderly.background_ids_nodup hmem

theorem addCard_eq (h : s.Filled known backgrounds done) {b : Background} (hb : b ∈ s.backgrounds)
    (hknown : known[c.background]? = some b.id) :
    s.addCard known c = (b.fillAll s.nextId c.backgroundText.entries).map fun b' =>
      withBackground { s with
        nextId := s.nextId + c.size
        cards := s.cards ++ [c.toCard s.nextId b.id] } b' := by
  have hfound := (h.appendCard hknown).taking.orderly.background?_eq hb
  unfold addCard
  simp only [hknown, hfound]
  cases b.fillAll s.nextId c.backgroundText.entries <;> rfl

theorem addCard_of_fits (h : s.Filled known backgrounds done) (hc : c.Fits backgrounds) :
    ∃ t, s.addCard known c = .ok t ∧ t.Filled known backgrounds (done ++ [c]) := by
  obtain ⟨snapshot, hsnapshot, htexts⟩ := hc
  obtain ⟨b, hb, hknown, hpictures⟩ := h.exists_background hsnapshot
  obtain ⟨b', hfill⟩ := hpictures.exists_fillAll s.nextId htexts
  refine ⟨_, ?_, (h.appendCard hknown).fillBackground hb hfill⟩
  rw [h.addCard_eq hb hknown, hfill]
  rfl

theorem addCard_of_flaw (h : s.Filled known backgrounds done) {e : Failure}
    (hc : c.Flaw backgrounds e) : s.addCard known c = .error e := by
  cases hc with
  | background hle =>
    have hnone : known[c.background]? = none := by
      rw [List.getElem?_eq_none_iff, ← h.taking.backgrounds_eq, List.length_map,
        h.backgrounds.length_eq]
      exact hle
    unfold addCard
    rw [hnone]
  | text hsnapshot hflaw =>
    obtain ⟨b, hb, hknown, hpictures⟩ := h.exists_background hsnapshot
    rw [h.addCard_eq hb hknown, hpictures.fillAll_of_firstFlaw s.nextId hflaw]
    rfl

end Filled

end Stack

namespace StackSnapshot

/-- The stack with its backgrounds, before the first card. -/
def bare (s : StackSnapshot) : Stack where
  script := s.script
  properties := ((({} : PropertyTable).define "name" (.ofText s.name)).define "cantModify"
    (.ofBool false)).define "userLevel" (.ofInt 5)
  nextId := (orUsual {} s.backgrounds).foldl (fun next b => next + b.size) 100
  backgrounds := openBackgrounds 100 (orUsual {} s.backgrounds)

theorem toStack_eq (s : StackSnapshot) :
    s.toStack = do
      let t ← (orUsual {} s.cards).foldlM
        (fun t c => Stack.addCard t (s.bare.backgrounds.map (·.id)) c) s.bare
      return { t with currentCard := (t.cards.head?.map (·.id)).getD 0 } := rfl

theorem filled_bare (s : StackSnapshot) :
    s.bare.Filled (s.bare.backgrounds.map (·.id)) (orUsual {} s.backgrounds) [] := by
  have hempty : ({ nextId := 100 } : Stack).Orderly := by constructor <;> simp [Stack.ids]
  have hopened := hempty.openBackgrounds (orUsual {} s.backgrounds)
  refine ⟨⟨hopened.congr rfl rfl rfl, rfl⟩, openBackgrounds_depicts .., .nil, ?_⟩
  obtain ⟨count, hcount⟩ := exists_ids_openBackgrounds 100 (orUsual {} s.backgrounds)
  have hids : s.bare.idsInOrder = List.range' 100 count := by
    rw [Stack.idsInOrder, bare, hcount]
    exact List.append_nil _
  rw [hids]
  exact List.pairwise_lt_range'

variable {snapshot : StackSnapshot}

theorem toStack_of_fits
    (h : ∀ c ∈ orUsual {} snapshot.cards, c.Fits (orUsual {} snapshot.backgrounds)) :
    ∃ s, snapshot.toStack = .ok s ∧
      s.Filled (s.backgrounds.map (·.id)) (orUsual {} snapshot.backgrounds)
        (orUsual {} snapshot.cards) ∧
      s.cards.head?.map (·.id) = some s.currentCard := by
  obtain ⟨t, hfold, hfilled⟩ := foldlM_of_good
    (fun _ _ _ hs hc => Stack.Filled.addCard_of_fits hs hc) snapshot.filled_bare h
  rw [toStack_eq, hfold]
  refine ⟨_, rfl, ⟨⟨hfilled.taking.orderly.congr rfl rfl rfl, rfl⟩, hfilled.backgrounds, ?_,
    hfilled.ascending⟩, ?_⟩
  · show List.Forall₂ (Card.Depicts (t.backgrounds.map (·.id))) t.cards _
    rw [hfilled.taking.backgrounds_eq]
    exact hfilled.cards
  · have hne : t.cards ≠ [] := by
      intro hnil
      have hcards := hfilled.cards
      rw [hnil, List.forall₂_nil_left_iff] at hcards
      exact orUsual_ne_nil _ _ hcards
    obtain ⟨c, cards, hcards⟩ := List.exists_cons_of_ne_nil hne
    show t.cards.head?.map (·.id) = some ((t.cards.head?.map (·.id)).getD 0)
    rw [hcards]
    rfl

theorem toStack_of_flaw {e : Failure}
    (h : FirstFlaw (CardSnapshot.Fits (orUsual {} snapshot.backgrounds))
      (CardSnapshot.Flaw (orUsual {} snapshot.backgrounds)) (orUsual {} snapshot.cards) e) :
    snapshot.toStack = .error e := by
  have hfold := foldlM_of_firstFlaw (fun _ _ _ hs hc => Stack.Filled.addCard_of_fits hs hc)
    (fun _ _ _ _ hs hc => Stack.Filled.addCard_of_flaw hs hc) snapshot.filled_bare h
  rw [toStack_eq, hfold]
  rfl

/-- **Which snapshots open.** A snapshot opens if and only if every card lies on one of its
backgrounds, of which there is one if none is given, and every text a card holds is for a field of
that background, by the name that is its property. Otherwise opening fails because of the first card
for which this is not so: there is no such background, or else no field of the first such name. A
snapshot that opens opens as a stack with the same backgrounds and cards in the same order, each
with its buttons and then its fields; identifiers ascend, and the first card is the current one. -/
theorem opens_iff_fits (snapshot : StackSnapshot) :
    let backgrounds := orUsual {} snapshot.backgrounds
    let cards := orUsual {} snapshot.cards
    ((∃ s, snapshot.toStack = .ok s) ↔ ∀ c ∈ cards, c.Fits backgrounds) ∧
    (∀ e, snapshot.toStack = .error e ↔
      FirstFlaw (CardSnapshot.Fits backgrounds) (CardSnapshot.Flaw backgrounds) cards e) ∧
    ∀ s, snapshot.toStack = .ok s →
      List.Forall₂ Background.Depicts s.backgrounds backgrounds ∧
      List.Forall₂ (Card.Depicts (s.backgrounds.map (·.id))) s.cards cards ∧
      (s.backgrounds.flatMap (·.ids) ++ s.cards.flatMap (·.ids)).Pairwise (· < ·) ∧
      s.cards.head?.map (·.id) = some s.currentCard := by
  intro backgrounds cards
  rcases all_good_or_firstFlaw (CardSnapshot.fits_or_flaw backgrounds) cards with hfits | ⟨e, hflaw⟩
  · obtain ⟨s, hs, hfilled, hcurrent⟩ := toStack_of_fits hfits
    refine ⟨⟨fun _ => hfits, fun _ => ⟨s, hs⟩⟩, ?_, ?_⟩
    · intro e
      refine ⟨fun he => ?_, toStack_of_flaw⟩
      rw [hs] at he
      cases he
    · intro t ht
      rw [hs] at ht
      cases ht
      exact ⟨hfilled.backgrounds, hfilled.cards, hfilled.ascending, hcurrent⟩
  · have he := toStack_of_flaw hflaw
    refine ⟨⟨?_, ?_⟩, ?_, ?_⟩
    · rintro ⟨s, hs⟩
      rw [he] at hs
      cases hs
    · intro hfits
      obtain ⟨s, hs, -⟩ := toStack_of_fits hfits
      rw [he] at hs
      cases hs
    · intro e'
      refine ⟨fun he' => ?_, toStack_of_flaw⟩
      rw [he] at he'
      cases he'
      exact hflaw
    · intro s hs
      rw [he] at hs
      cases hs

/-- A background with a field that a further property calls by another name, and cards on it. -/
def memo (cards : List CardSnapshot) : StackSnapshot where
  backgrounds := [{
    buttons := [{ name := "ok" }]
    fields := [{ name := "notes", sharedText := true, properties := .ofList [("NAME", "Memo")] }] }]
  cards := cards

/-- A text for the field is taken under the other name and not under the first one, and no card can
lie on a second background. -/
theorem opens_iff_fits_memo :
    (∃ s, (memo [{ backgroundText := .ofList [("mEMO", "a")] }]).toStack = .ok s ∧
      s.cards.head?.map (·.id) = some s.currentCard) ∧
    (memo [{ backgroundText := .ofList [("memo", "a"), ("notes", "b")] }]).toStack =
      .error (.noSuchPart "background field \"notes\"") ∧
    (memo [{}, { name := "last", background := 1 }]).toStack =
      .error (.semantic (.missingBackground "last" 1)) := by
  refine ⟨?_, ?_, ?_⟩
  · obtain ⟨hopens, -, hopened⟩ :=
      opens_iff_fits (memo [{ backgroundText := .ofList [("mEMO", "a")] }])
    obtain ⟨s, hs⟩ := hopens.2 fun c hc => by
      obtain rfl := List.mem_singleton.1 hc
      refine ⟨_, rfl, fun entry hentry => ?_⟩
      obtain rfl := List.mem_singleton.1 hentry
      exact ⟨_, .head _, by decide +kernel⟩
    exact ⟨s, hs, (hopened s hs).2.2.2⟩
  · apply ((opens_iff_fits _).2.1 _).2
    refine .of_head (.text rfl ⟨[("memo", "a")], ("notes", "b"), [], rfl, ?_, ?_, rfl⟩) []
    · intro entry hentry
      obtain rfl := List.mem_singleton.1 hentry
      exact ⟨_, .head _, by decide +kernel⟩
    · rintro ⟨field, hfield, hsame⟩
      obtain rfl := List.mem_singleton.1 hfield
      revert hsame
      decide +kernel
  · apply ((opens_iff_fits _).2.1 _).2
    refine .cons ⟨_, rfl, nofun⟩ (.of_head (.background ?_) [])
    decide

end StackSnapshot

end CardScript
