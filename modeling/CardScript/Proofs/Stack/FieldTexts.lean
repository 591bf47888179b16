import CardScript.Proofs.Stack.Entries
import CardScript.Proofs.Stack.Reachable
import Mathlib.Logic.Relation

/-!
# Texts of background fields

A field of a background keeps a text for each card and one text for all of them, and its property
`sharedText` decides at each access which of the two is meant. `FieldChange` is a write or a change
of that property, and a history is a list of them. What a card reads is the last text of the
history that counts for it (`FieldHistory.read`): one step of a history keeps this
(`Reflects.apply`), hence every history does (`Reflects.after`).

Texts of removed cards are never dropped. A new card reads nothing of them because identifiers are
not used twice: as long as texts are written only for cards whose identifiers have been given out
(`Stack.KnownStep`), all texts lie below the next identifier (`Stack.TextsBelow`).
-/

namespace CardScript

/-! ## Property tables -/

namespace PropertyTable

variable {t : PropertyTable} {name : String}

theorem find?_define (t : PropertyTable) (name key : String) (value : Value) :
    (t.define name value).find? key =
      if Text.lowerString name = key then some value else t.find? key := by
  split
  next heq =>
    subst heq
    exact (puts _ value).valueAt_eq t.entries
  next hne => exact valueAt_put_ne (Ne.symm hne) value t.entries

/-- A property that is there and may be set is set. -/
theorem exists_set (hopen : Text.lowerString name ∉ t.readOnly)
    (hthere : (t.find? (Text.lowerString name)).isSome) (value : Value) :
    ∃ t', t.set name value = .ok t' ∧ t'.readOnly = t.readOnly := by
  obtain ⟨v, hv⟩ := Option.isSome_iff_exists.1 hthere
  refine ⟨{ t with entries := put (Text.lowerString name) value t.entries }, ?_, rfl⟩
  simp [set, checkSet, define, hopen, hv]

/-- Of several definitions of one property the last one counts. -/
theorem find?_foldl_define (entries : List (String × String)) (t : PropertyTable) (key : String) :
    (entries.foldl (fun t (name, text) => t.define name (.ofText text)) t).find? key =
      ((entries.reverse.find? fun e => Text.lowerString e.1 == key).map (.ofText ·.2)).or
        (t.find? key) := by
  induction entries generalizing t with
  | nil => rfl
  | cons e entries ih =>
    rw [List.foldl_cons, ih, find?_define, List.reverse_cons, List.find?_append]
    cases entries.reverse.find? fun e => Text.lowerString e.1 == key with
    | some found => rfl
    | none =>
      by_cases h : Text.lowerString e.1 = key
      · simp [h]
      · simp [h]

theorem readOnly_foldl_define (entries : List (String × String)) (t : PropertyTable) :
    (entries.foldl (fun t (name, text) => t.define name (.ofText text)) t).readOnly =
      t.readOnly := by
  induction entries generalizing t with
  | nil => rfl
  | cons e entries ih => exact ih _

end PropertyTable

/-! ## Histories of a field -/

/-- What is done to a field. -/
inductive FieldChange where
  /-- A text is written, as seen from a card or from none. -/
  | write (card : Option PartId) (value : Value)
  /-- The property `sharedText` is set. -/
  | share (value : Value)

def FieldChange.apply (p : Part) : FieldChange → Except Failure Part
  | write card value => p.setText card value
  | share value => do return { p with properties := ← p.properties.set "sharedText" value }

/-- The field after a history, of which the latest change comes first. -/
def Part.after (p : Part) : List FieldChange → Except Failure Part
  | [] => .ok p
  | change :: earlier => do change.apply (← p.after earlier)

namespace FieldHistory

/-- The text is shared after a history: `sharedText` reads as true. -/
def isShared (start : Bool) : List FieldChange → Bool
  | [] => start
  | .share value :: _ => value.boolean?.getD false
  | .write _ _ :: earlier => isShared start earlier

/-- The last text of a history that counts, which may depend on whether the text was shared when it
was written and on the card through which it was. -/
def last? (start : Bool) (counts : Bool → Option PartId → Bool) : List FieldChange → Option Value
  | [] => none
  | .share _ :: earlier => last? start counts earlier
  | .write card value :: earlier =>
    if counts (isShared start earlier) card then some value else last? start counts earlier

/-- The last text written through a card while texts were not shared. -/
def own? (start : Bool) (card : PartId) : List FieldChange → Option Value :=
  last? start fun shared through => !shared && through == some card

/-- The last text written while texts were shared, or through no card. -/
def common? (start : Bool) : List FieldChange → Option Value :=
  last? start fun shared through => shared || through.isNone

/-- What a card reads after a history. -/
def read (start : Bool) (initial : Value) (card : PartId) (history : List FieldChange) : Value :=
  if isShared start history then (common? start history).getD initial
  else (own? start card history).getD .empty

variable {start : Bool} {initial : Value} {card : PartId}

/-- Writing a text does not share it. -/
theorem isShared_append_write (start : Bool) (later earlier : List FieldChange)
    (through : Option PartId) (value : Value) :
    isShared start (later ++ .write through value :: earlier) =
      isShared start (later ++ earlier) := by
  induction later with
  | nil => rfl
  | cons change later ih =>
    cases change with
    | write through value => exact ih
    | share value => rfl

/-- A write that does not count could as well not have been made. -/
theorem last?_of_not_counts {counts : Bool → Option PartId → Bool} {through : Option PartId}
    {earlier : List FieldChange} (h : counts (isShared start earlier) through = false)
    (value : Value) (later : List FieldChange) :
    last? start counts (later ++ .write through value :: earlier) =
      last? start counts (later ++ earlier) := by
  induction later with
  | nil => simp [last?, h]
  | cons change later ih =>
    cases change with
    | write through' value' => simp only [List.cons_append, last?, isShared_append_write, ih]
    | share value' => exact ih

/-- What is written through another card while texts are not shared never shows. -/
theorem read_of_other {other : PartId} {earlier : List FieldChange} (hother : other ≠ card)
    (hshared : isShared start earlier = false) (value : Value) (later : List FieldChange) :
    read start initial card (later ++ .write (some other) value :: earlier) =
      read start initial card (later ++ earlier) := by
  have hown : own? start card (later ++ .write (some other) value :: earlier) =
      own? start card (later ++ earlier) :=
    last?_of_not_counts (by simp [hother]) value later
  have hcommon : common? start (later ++ .write (some other) value :: earlier) =
      common? start (later ++ earlier) :=
    last?_of_not_counts (by simp [hshared]) value later
  rw [read, read, hown, hcommon, isShared_append_write]

end FieldHistory

open FieldHistory (isShared own? common?)

theorem lowerString_text : Text.lowerString "text" = "text" := by decide +kernel

theorem lowerString_sharedText : Text.lowerString "sharedText" = "sharedtext" := by decide +kernel

/-- A background field that holds what a history has left. -/
structure Part.Reflects (start : Bool) (initial : Value) (history : List FieldChange) (p : Part) :
    Prop where
  kind : p.kind = .field
  layer : p.layer = .background
  shared : p.properties.flag "sharedtext" = isShared start history
  common : p.properties.find? "text" = some ((common? start history).getD initial)
  own : ∀ card, valueAt (· == card) p.cardTexts = own? start card history
  hasShared : (p.properties.find? "sharedtext").isSome
  text_open : "text" ∉ p.properties.readOnly
  shared_open : "sharedtext" ∉ p.properties.readOnly

namespace Part.Reflects

variable {start : Bool} {initial : Value} {history : List FieldChange} {p q : Part}

theorem isPerCard_eq (hp : p.Reflects start initial history) :
    p.isPerCard = !isShared start history := by
  simp [isPerCard, hp.kind, hp.layer, hp.shared]

theorem text_eq (hp : p.Reflects start initial history) (card : PartId) :
    p.text (some card) = .ok (FieldHistory.read start initial card history) := by
  simp only [text, hp.isPerCard_eq, FieldHistory.read]
  cases isShared start history with
  | true =>
    simp only [PropertyTable.get, contentsProperty, hp.kind, lowerString_text, hp.common]
    rfl
  | false =>
    have hown := hp.own card
    rw [valueAt] at hown
    simp [hown]

/-- The text of all cards is written. -/
theorem setSharedText (hp : p.Reflects start initial history) (through : Option PartId)
    (hthrough : (isShared start history || through.isNone) = true) (value : Value) :
    ∃ q, p.setSharedText value = .ok q ∧
      q.Reflects start initial (.write through value :: history) := by
  have hopen : Text.lowerString "text" ∉ p.properties.readOnly := lowerString_text ▸ hp.text_open
  have hthere : (p.properties.find? (Text.lowerString "text")).isSome := by
    rw [lowerString_text, hp.common]
    rfl
  obtain ⟨t, ht, hreadOnly⟩ := PropertyTable.exists_set hopen hthere value
  have hset : p.setSharedText value = .ok { p with properties := t } := by
    rw [Part.setSharedText, hp.kind, contentsProperty, ht]
    rfl
  have hother : t.find? "sharedtext" = p.properties.find? "sharedtext" :=
    PropertyTable.find?_set_ne ht (by rw [lowerString_text]; decide)
  refine ⟨_, hset, hp.kind, hp.layer, ?_, ?_, fun card => ?_, ?_, ?_, ?_⟩
  · rw [isShared, ← hp.shared, PropertyTable.flag, PropertyTable.flag, hother]
  · have hfind := PropertyTable.find?_set ht
    rw [lowerString_text] at hfind
    simp [common?, FieldHistory.last?, hthrough, hfind]
  · have hskip : (!isShared start history && through == some card) = false := by
      cases through <;> simp_all
    simp [own?, FieldHistory.last?, hskip, hp.own card]
  · rw [hother]
    exact hp.hasShared
  · rw [hreadOnly]
    exact hp.text_open
  · rw [hreadOnly]
    exact hp.shared_open

/-- The text of one card is written. -/
theorem setCardText (hp : p.Reflects start initial history)
    (hshared : isShared start history = false) (card : PartId) (value : Value) :
    ({ p with cardTexts := putCardText card value p.cardTexts } : Part).Reflects start initial
      (.write (some card) value :: history) := by
  refine ⟨hp.kind, hp.layer, hp.shared, ?_, fun other => ?_, hp.hasShared, hp.text_open,
    hp.shared_open⟩
  · simp [common?, FieldHistory.last?, hshared, hp.common]
  · by_cases h : card = other
    · subst h
      simpa [own?, FieldHistory.last?, hshared] using
        (puts_cardText card value).valueAt_eq p.cardTexts
    · have hown := hp.own other
      simpa [own?, FieldHistory.last?, hshared, h, hown] using
        (puts_cardText card value).valueAt_ne (not_same_of_ne (Ne.symm h)) p.cardTexts

theorem setText (hp : p.Reflects start initial history) (through : Option PartId)
    (value : Value) :
    ∃ q, p.setText through value = .ok q ∧
      q.Reflects start initial (.write through value :: history) := by
  rw [Part.setText_eq]
  cases through with
  | none => exact hp.setSharedText none (Bool.or_true _) value
  | some card =>
    simp only [hp.isPerCard_eq]
    cases hshared : isShared start history with
    | true => exact hp.setSharedText (some card) (by simp [hshared]) value
    | false => exact ⟨_, rfl, hp.setCardText hshared card value⟩

theorem share (hp : p.Reflects start initial history) (value : Value) :
    ∃ q, (FieldChange.share value).apply p = .ok q ∧
      q.Reflects start initial (.share value :: history) := by
  have hopen : Text.lowerString "sharedText" ∉ p.properties.readOnly :=
    lowerString_sharedText ▸ hp.shared_open
  have hthere : (p.properties.find? (Text.lowerString "sharedText")).isSome :=
    lowerString_sharedText ▸ hp.hasShared
  obtain ⟨t, ht, hreadOnly⟩ := PropertyTable.exists_set hopen hthere value
  have happly : (FieldChange.share value).apply p = .ok { p with properties := t } := by
    rw [FieldChange.apply, ht]
    rfl
  have hfind := PropertyTable.find?_set ht
  rw [lowerString_sharedText] at hfind
  have hother : t.find? "text" = p.properties.find? "text" :=
    PropertyTable.find?_set_ne ht (by rw [lowerString_sharedText]; decide)
  refine ⟨_, happly, hp.kind, hp.layer, ?_, ?_, hp.own, ?_, ?_, ?_⟩
  · simp only [isShared, PropertyTable.flag, hfind, Option.bind_some]
  · rw [hother]
    exact hp.common
  · rw [hfind]
    rfl
  · rw [hreadOnly]
    exact hp.text_open
  · rw [hreadOnly]
    exact hp.shared_open

/-- One more change of a field succeeds and is reflected. -/
theorem apply (hp : p.Reflects start initial history) (change : FieldChange) :
    ∃ q, change.apply p = .ok q ∧ q.Reflects start initial (change :: history) := by
  cases change with
  | write through value => exact hp.setText through value
  | share value => exact hp.share value

/-- Every history of a field succeeds and is reflected. -/
theorem after (hp : p.Reflects start initial []) (history : List FieldChange) :
    ∃ q, p.after history = .ok q ∧ q.Reflects start initial history := by
  induction history with
  | nil => exact ⟨p, rfl, hp⟩
  | cons change earlier ih =>
    obtain ⟨q, hq, hreflects⟩ := ih
    obtain ⟨r, hr, hreflects⟩ := hreflects.apply change
    refine ⟨r, ?_, hreflects⟩
    rw [Part.after, hq]
    exact hr

end Part.Reflects

/-! ## Fields as they are opened -/

namespace PartSnapshot

/-- What the further properties of a snapshot say of a property. -/
def further? (p : PartSnapshot) (key : String) : Option Value :=
  (p.properties.entries.reverse.find? fun e => Text.lowerString e.1 == key).map (.ofText ·.2)

/-- The text a field starts with. A further property of this name counts for more than the text. -/
def openingText (p : PartSnapshot) : Value :=
  (p.further? "text").getD (.ofText p.text)

/-- The text starts out shared. -/
def opensShared (p : PartSnapshot) : Bool :=
  (((p.further? "sharedtext").getD (.ofBool p.sharedText)).boolean?).getD false

variable (p : PartSnapshot)

theorem find?_table_text : (p.table .field).find? "text" = some p.openingText := by
  have hnames : ∀ name ∈ ["lockText", "sharedText", "dontWrap", "style"],
      Text.lowerString name ≠ "text" := by decide +kernel
  simp only [List.forall_mem_cons] at hnames
  obtain ⟨hlock, hshared, hwrap, hstyle, -⟩ := hnames
  simp only [table, PropertyTable.find?_foldl_define, PropertyTable.find?_define, if_neg hlock,
    if_neg hshared, if_neg hwrap, if_neg hstyle, if_pos lowerString_text]
  rw [openingText, further?]
  cases List.find? _ _ <;> rfl

theorem find?_table_sharedText :
    (p.table .field).find? "sharedtext" =
      some ((p.further? "sharedtext").getD (.ofBool p.sharedText)) := by
  have hnames : ∀ name ∈ ["dontWrap", "style"], Text.lowerString name ≠ "sharedtext" := by
    decide +kernel
  simp only [List.forall_mem_cons] at hnames
  obtain ⟨hwrap, hstyle, -⟩ := hnames
  simp only [table, PropertyTable.find?_foldl_define, PropertyTable.find?_define, if_neg hwrap,
    if_neg hstyle, if_pos lowerString_sharedText]
  rw [further?]
  cases List.find? _ _ <;> rfl

theorem readOnly_table : (p.table .field).readOnly = [] := by
  rw [table, PropertyTable.readOnly_foldl_define]
  rfl

/-- A background field that has just been opened has no history. -/
theorem reflects_opened {owner id : PartId} {field : Part}
    (h : openParts .field .background owner id [p] = [field]) :
    field.Reflects p.opensShared p.openingText [] := by
  cases h
  refine ⟨rfl, rfl, ?_, p.find?_table_text, fun _ => rfl, ?_, ?_, ?_⟩
  · rw [PropertyTable.flag, p.find?_table_sharedText, Option.bind_some, opensShared,
      FieldHistory.isShared]
  · rw [p.find?_table_sharedText]
    rfl
  · rw [p.readOnly_table]
    exact List.not_mem_nil
  · rw [p.readOnly_table]
    exact List.not_mem_nil

end PartSnapshot

/-! ## Cards that texts are kept for -/

/-- The field keeps texts only for cards with identifiers below a bound. -/
def Part.TextsBelow (bound : PartId) (p : Part) : Prop :=
  ∀ e ∈ p.cardTexts, e.1 < bound

namespace Part.TextsBelow

variable {bound : PartId} {p q : Part}

theorem mono {bound' : PartId} (h : p.TextsBelow bound) (hle : bound ≤ bound') :
    p.TextsBelow bound' :=
  fun e he => Nat.lt_of_lt_of_le (h e he) hle

theorem mem_putCardText {card : PartId} {value : Value} {texts : List (PartId × Value)}
    {e : PartId × Value} (he : e ∈ putCardText card value texts) :
    e.1 = card ∨ e ∈ texts := by
  induction texts with
  | nil => exact .inl (congrArg Prod.fst (List.mem_singleton.1 he))
  | cons head rest ih =>
    rw [putCardText] at he
    split at he
    next hhead =>
      rcases List.mem_cons.1 he with rfl | he
      · exact .inl (eq_of_beq hhead)
      · exact .inr (List.mem_cons_of_mem _ he)
    next =>
      rcases List.mem_cons.1 he with rfl | he
      · exact .inr List.mem_cons_self
      · exact (ih he).imp_right (List.mem_cons_of_mem _)

theorem setText {card : Option PartId} {value : Value} (hp : p.TextsBelow bound)
    (hcard : ∀ c ∈ card, c < bound) (h : p.setText card value = .ok q) : q.TextsBelow bound := by
  have hshared (h : p.setSharedText value = .ok q) : q.TextsBelow bound := by
    obtain ⟨table, -, h⟩ := Failure.bind_eq_ok.1 h
    cases h
    exact hp
  rw [Part.setText_eq] at h
  cases card with
  | none => exact hshared h
  | some card =>
    dsimp only at h
    split at h
    next =>
      cases h
      intro e he
      rcases mem_putCardText he with hfst | he
      · rw [hfst]
        exact hcard card rfl
      · exact hp e he
    next => exact hshared h

/-- Nothing is kept for a card from the bound on. -/
theorem text_eq {card : PartId} (hp : p.TextsBelow bound) (hcard : bound ≤ card)
    (hpercard : p.isPerCard = true) : p.text (some card) = .ok .empty := by
  have hnone : p.cardTexts.find? (·.1 == card) = none := by
    refine List.find?_eq_none.2 fun e he heq => ?_
    exact Nat.not_le_of_lt (hp e he) (eq_of_beq heq ▸ hcard)
  simp [text, hpercard, hnone]

end Part.TextsBelow

/-! ### Opening -/

theorem openParts_textsBelow {bound : PartId} {p : Part}
    (hp : p ∈ openParts kind layer owner next snapshots) : p.TextsBelow bound := by
  induction snapshots generalizing next with
  | nil => cases hp
  | cons snapshot snapshots ih =>
    rcases List.mem_cons.1 hp with rfl | hp
    · exact fun _ he => nomatch he
    · exact ih hp

theorem openLayer_textsBelow {bound : PartId} {p : Part}
    (hp : p ∈ openLayer layer owner buttons fields) : p.TextsBelow bound := by
  rcases List.mem_append.1 hp with hp | hp
  · exact openParts_textsBelow hp
  · exact openParts_textsBelow hp

theorem openBackgrounds_textsBelow {bound : PartId} {b : Background} {p : Part}
    (hb : b ∈ openBackgrounds next snapshots) (hp : p ∈ b.parts) : p.TextsBelow bound := by
  induction snapshots generalizing next with
  | nil => cases hb
  | cons snapshot snapshots ih =>
    rcases List.mem_cons.1 hb with rfl | hb
    · exact openLayer_textsBelow hp
    · exact ih hb

theorem Background.fill_textsBelow {b b' : Background} {card bound : PartId}
    (hb : ∀ p ∈ b.parts, p.TextsBelow bound) (hcard : card < bound)
    (h : b.fill card called text = .ok b') : ∀ p ∈ b'.parts, p.TextsBelow bound := by
  unfold fill at h
  split at h
  next field hfield =>
    obtain ⟨field', hset, h⟩ := Failure.bind_eq_ok.1 h
    cases h
    have hfield := hb field (List.mem_of_find?_eq_some hfield)
    intro p hp
    obtain ⟨q, hq, rfl⟩ := List.mem_map.1 hp
    split
    · exact hfield.setText (by simpa using hcard) hset
    · exact hb q hq
  next => cases h

theorem Background.fillAll_textsBelow {b b' : Background} {card bound : PartId}
    (hb : ∀ p ∈ b.parts, p.TextsBelow bound) (hcard : card < bound)
    (h : b.fillAll card texts = .ok b') : ∀ p ∈ b'.parts, p.TextsBelow bound :=
  Failure.foldlM_keeps (P := fun b => ∀ p ∈ b.parts, p.TextsBelow bound)
    (fun _ _ _ hb h => fill_textsBelow hb hcard h) hb h

namespace Stack

/-- All texts are kept for cards with identifiers below a bound. -/
def TextsBelow (bound : PartId) (s : Stack) : Prop :=
  ∀ p ∈ s.allParts, p.TextsBelow bound

/-- One change of a stack. A text is written for no card, or for one whose identifier has been
given out. -/
inductive KnownStep (s t : Stack) : Prop
  | edit (e : Edit) : e.apply s = .ok t → KnownStep s t
  | contents (found : Found) (value : Value) :
      (∀ card ∈ found.card, card < s.nextId) → s.setContents found value = .ok t → KnownStep s t
  | property (found : Found) (name : String) (value : Value) :
      (∀ card ∈ found.card, card < s.nextId) → s.setProperty found name value = .ok t →
        KnownStep s t

theorem KnownStep.step {s t : Stack} (h : s.KnownStep t) : s.Step t := by
  cases h with
  | edit e h => exact .edit e h
  | contents found value _ h => exact .contents h
  | property found name value _ h => exact .property h

namespace TextsBelow

variable {s t : Stack} {bound : PartId}

theorem of_subset (hs : s.TextsBelow bound) (h : t.allParts ⊆ s.allParts) : t.TextsBelow bound :=
  fun p hp => hs p (h hp)

theorem mono {bound' : PartId} (hs : s.TextsBelow bound) (hle : bound ≤ bound') :
    s.TextsBelow bound' :=
  fun p hp => (hs p hp).mono hle

/-! ### Writing -/

theorem withPart {p : Part} (hs : s.TextsBelow bound) (hp : p.TextsBelow bound) :
    (s.withPart p).TextsBelow bound := by
  have hreplace {parts : List Part} (hparts : ∀ q ∈ parts, q.TextsBelow bound) :
      ∀ q ∈ replacePart p parts, q.TextsBelow bound := by
    intro q hq
    obtain ⟨q₀, hq₀, rfl⟩ := List.mem_map.1 hq
    split
    · exact hp
    · exact hparts q₀ hq₀
  intro q hq
  rcases mem_allParts.1 hq with ⟨c, hc, hq⟩ | ⟨b, hb, hq⟩
  · obtain ⟨c₀, hc₀, rfl⟩ := List.mem_map.1 hc
    exact hreplace (fun q hq => hs q (mem_allParts.2 (.inl ⟨c₀, hc₀, hq⟩))) q hq
  · obtain ⟨b₀, hb₀, rfl⟩ := List.mem_map.1 hb
    exact hreplace (fun q hq => hs q (mem_allParts.2 (.inr ⟨b₀, hb₀, hq⟩))) q hq

theorem withBackground {b : Background} (hs : s.TextsBelow bound)
    (hb : ∀ p ∈ b.parts, p.TextsBelow bound) : (s.withBackground b).TextsBelow bound := by
  intro p hp
  rcases mem_allParts.1 hp with ⟨c, hc, hp⟩ | ⟨b', hb', hp⟩
  · exact hs p (mem_allParts.2 (.inl ⟨c, hc, hp⟩))
  · obtain ⟨b₀, hb₀, rfl⟩ := List.mem_map.1 hb'
    split at hp
    · exact hb p hp
    · exact hs p (mem_allParts.2 (.inr ⟨b₀, hb₀, hp⟩))

theorem setContents {found : Found} {value : Value} (hs : s.TextsBelow bound)
    (hfound : ∀ card ∈ found.card, card < bound) (h : s.setContents found value = .ok t) :
    t.TextsBelow bound := by
  rw [Stack.setContents_eq] at h
  split at h
  · split at h
    next p hp =>
      obtain ⟨q, hq, h⟩ := Failure.bind_eq_ok.1 h
      cases h
      exact hs.withPart ((hs p (part?_eq_some hp).1).setText hfound hq)
    next => cases h
  · cases h

theorem withTable (hs : s.TextsBelow bound) (table : PropertyTable) (r : PartRef) :
    (s.withTable table r).TextsBelow bound := by
  cases r with
  | stack => exact hs
  | card id =>
    simp only [Stack.withTable]
    split
    next c hc =>
      intro p hp
      rcases mem_allParts.1 hp with ⟨c', hc', hp⟩ | ⟨b, hb, hp⟩
      · obtain ⟨c₀, hc₀, rfl⟩ := List.mem_map.1 hc'
        split at hp
        · exact hs p (mem_allParts.2 (.inl ⟨c, (card?_eq_some hc).1, hp⟩))
        · exact hs p (mem_allParts.2 (.inl ⟨c₀, hc₀, hp⟩))
      · exact hs p (mem_allParts.2 (.inr ⟨b, hb, hp⟩))
    next => exact hs
  | background id =>
    simp only [Stack.withTable]
    split
    next b hb =>
      obtain ⟨hmem, -⟩ := background?_eq_some hb
      exact hs.withBackground fun p hp => hs p (mem_allParts.2 (.inr ⟨b, hmem, hp⟩))
    next => exact hs
  | part kind layer id =>
    simp only [Stack.withTable]
    split
    next p hp => exact hs.withPart (hs p (part?_eq_some hp).1)
    next => exact hs

theorem setProperty {found : Found} {name : String} {value : Value} (hs : s.TextsBelow bound)
    (hfound : ∀ card ∈ found.card, card < bound) (h : s.setProperty found name value = .ok t) :
    t.TextsBelow bound := by
  simp only [Stack.setProperty_eq] at h
  split at h
  · cases h
  split at h
  · exact hs.setContents hfound h
  obtain ⟨before, -, h⟩ := Failure.bind_eq_ok.1 h
  obtain ⟨table, -, h⟩ := Failure.bind_eq_ok.1 h
  cases h
  exact hs.withTable table found.part

/-! ### Edits -/

theorem insertAfterCurrent {card : Card} (hs : s.TextsBelow bound) (hcard : card.parts = []) :
    (s.insertAfterCurrent card).TextsBelow bound := by
  refine hs.of_subset fun p hmem => ?_
  rcases mem_allParts.1 hmem with ⟨c, hc, hp⟩ | ⟨b, hb, hp⟩
  · rcases List.mem_cons.1 ((cards_insertAfterCurrent s card).mem_iff.1 hc) with rfl | hc
    · rw [hcard] at hp
      cases hp
    · exact mem_allParts.2 (.inl ⟨c, hc, hp⟩)
  · exact mem_allParts.2 (.inr ⟨b, hb, hp⟩)

theorem newCard {id : PartId} (hs : s.TextsBelow bound) (h : s.newCard = .ok (id, t)) :
    id = s.nextId ∧ t.TextsBelow bound := by
  obtain ⟨current, -, hid, rfl⟩ := Stack.newCard_eq_ok h
  exact ⟨hid, insertAfterCurrent hs rfl⟩

theorem newBackground (hs : s.TextsBelow bound) : s.newBackground.2.TextsBelow bound := by
  refine insertAfterCurrent (fun p hp => ?_) rfl
  rcases mem_allParts.1 hp with ⟨c, hc, hp⟩ | ⟨b, hb, hp⟩
  · exact hs p (mem_allParts.2 (.inl ⟨c, hc, hp⟩))
  · rcases List.mem_append.1 hb with hb | hb
    · exact hs p (mem_allParts.2 (.inr ⟨b, hb, hp⟩))
    · rw [List.mem_singleton.1 hb] at hp
      cases hp

theorem edit {e : Edit} (hs : s.TextsBelow bound) (h : e.apply s = .ok t) :
    t.TextsBelow bound := by
  cases e with
  | newCard =>
    obtain ⟨id, hnew⟩ := Edit.apply_newCard.1 h
    exact (hs.newCard hnew).2
  | newBackground =>
    cases h
    exact hs.newBackground
  | deleteCard id =>
    obtain ⟨removed, -, h⟩ := deleteCard_eq_ok h
    refine hs.of_subset fun p hp => mem_allParts.2 ?_
    rcases mem_allParts.1 hp with ⟨c, hc, hp⟩ | ⟨b, hb, hp⟩
    · exact .inl ⟨c, h.cards_sublist.subset hc, hp⟩
    · exact .inr ⟨b, h.backgrounds_sublist.subset hb, hp⟩
  | showCard id =>
    obtain ⟨-, rfl⟩ := Stack.showCard_eq_ok h
    exact hs

/-! ### Opening -/

theorem addCard {known : List PartId} {c : CardSnapshot} (hs : s.TextsBelow s.nextId)
    (h : s.addCard known c = .ok t) : t.TextsBelow t.nextId := by
  unfold Stack.addCard at h
  split at h
  · cases h
  next background _ =>
  have hsize : 0 < c.size := by
    unfold CardSnapshot.size
    omega
  have hlt : s.nextId < s.nextId + c.size := Nat.lt_add_of_pos_right hsize
  have happend : ({ s with
      nextId := s.nextId + c.size
      cards := s.cards ++ [c.toCard s.nextId background] } : Stack).TextsBelow
        (s.nextId + c.size) := by
    intro p hp
    rcases mem_allParts.1 hp with ⟨c', hc', hp⟩ | ⟨b, hb, hp⟩
    · rcases List.mem_append.1 hc' with hc' | hc'
      · exact (hs p (mem_allParts.2 (.inl ⟨c', hc', hp⟩))).mono (Nat.le_of_lt hlt)
      · rw [List.mem_singleton.1 hc'] at hp
        exact openLayer_textsBelow hp
    · exact (hs p (mem_allParts.2 (.inr ⟨b, hb, hp⟩))).mono (Nat.le_of_lt hlt)
  dsimp only at h
  split at h
  next b hb =>
    obtain ⟨b', hfill, h⟩ := Failure.bind_eq_ok.1 h
    cases h
    obtain ⟨hmem, -⟩ := background?_eq_some hb
    refine happend.withBackground (Background.fillAll_textsBelow (fun p hp => ?_) hlt hfill)
    exact happend p (mem_allParts.2 (.inr ⟨b, hmem, hp⟩))
  next =>
    cases h
    exact happend

theorem toStack {snapshot : StackSnapshot} (h : snapshot.toStack = .ok s) :
    s.TextsBelow s.nextId := by
  obtain ⟨stack, hfold, h⟩ := Failure.bind_eq_ok.1 h
  cases h
  refine Failure.foldlM_keeps (P := fun s => s.TextsBelow s.nextId) (fun _ _ _ hs h => hs.addCard h)
    ?_ hfold
  intro p hp
  rcases mem_allParts.1 hp with ⟨c, hc, -⟩ | ⟨b, hb, hp⟩
  · cases hc
  · exact openBackgrounds_textsBelow hb hp

/-! ### Runs -/

theorem step (hs : s.TextsBelow s.nextId) (hcoherent : s.Coherent) (h : s.KnownStep t) :
    t.TextsBelow t.nextId := by
  have hle : s.nextId ≤ t.nextId := (hcoherent.step h.step).2.nextId_le
  cases h with
  | edit e h => exact (hs.edit h).mono hle
  | contents found value hfound h => exact (hs.setContents hfound h).mono hle
  | property found name value hfound h => exact (hs.setProperty hfound h).mono hle

theorem run (hs : s.TextsBelow s.nextId) (hcoherent : s.Coherent)
    (h : Relation.ReflTransGen KnownStep s t) : t.TextsBelow t.nextId := by
  have hboth : t.Coherent ∧ t.TextsBelow t.nextId := by
    induction h with
    | refl => exact ⟨hcoherent, hs⟩
    | tail _ hstep ih => exact ⟨(ih.1.step hstep.step).1, ih.2.step ih.1 hstep⟩
  exact hboth.2

end TextsBelow

end Stack

/-! ## Isolation -/

/-- **Texts of background fields are isolated.** Whatever the history of a background field since it
was opened, all of it succeeds, and each card reads the text that counts for it: while texts are
not shared, the last one written through that card while they were not shared, and nothing if there
was none; while they are shared, the last one written while they were shared or through no card,
and at first the text the field was opened with. What is written through another card while texts
are not shared never shows. If, since the stack was opened, texts were written only for cards whose
identifiers had been given out, then a new card reads every field of a background that does not
share its text as empty. -/
theorem field_texts_isolated :
    (∀ (snapshot : PartSnapshot) (owner id : PartId) (field : Part),
      openParts .field .background owner id [snapshot] = [field] →
      ∀ history, ∃ field', field.after history = .ok field' ∧ ∀ card,
        field'.text (some card) = .ok
          (if isShared snapshot.opensShared history then
            (common? snapshot.opensShared history).getD snapshot.openingText
          else (own? snapshot.opensShared card history).getD .empty) ∧
        ∀ later other value earlier, history = later ++ .write (some other) value :: earlier →
          other ≠ card → isShared snapshot.opensShared earlier = false →
          ∃ without, field.after (later ++ earlier) = .ok without ∧
            field'.text (some card) = without.text (some card)) ∧
    ∀ (snapshot : StackSnapshot) (s t : Stack), snapshot.toStack = .ok s →
      Relation.ReflTransGen Stack.KnownStep s t →
      ∀ (card : PartId) (u : Stack), t.newCard = .ok (card, u) ∨ t.newBackground = (card, u) →
        ∀ p ∈ u.allParts, p.isPerCard = true → p.text (some card) = .ok .empty := by
  refine ⟨fun snapshot owner id field hopen history => ?_,
    fun snapshot s t hopen hrun card u hnew p hp hpercard => ?_⟩
  · have hstart := snapshot.reflects_opened hopen
    obtain ⟨field', hafter, hreflects⟩ := hstart.after history
    refine ⟨field', hafter, fun card => ⟨hreflects.text_eq card, ?_⟩⟩
    rintro later other value earlier rfl hother hshared
    obtain ⟨without, hwithout, hreflects'⟩ := hstart.after (later ++ earlier)
    refine ⟨without, hwithout, ?_⟩
    rw [hreflects.text_eq, hreflects'.text_eq, FieldHistory.read_of_other hother hshared]
  · have ht := (Stack.TextsBelow.toStack hopen).run (StackSnapshot.toStack_coherent hopen) hrun
    rcases hnew with hnew | hnew
    · obtain ⟨rfl, hu⟩ := ht.newCard hnew
      exact (hu p hp).text_eq (Nat.le_refl _) hpercard
    · cases hnew
      exact (ht.newBackground p hp).text_eq (Nat.le_succ _) hpercard

/-- A field is written through two cards, then shared and written through one of them, and in the
end not shared any more: each card reads what was written through it at first. A card that is made
after a text was written reads nothing. -/
theorem field_texts_isolated_notes :
    (∃ field field' : Part, openParts .field .background 100 101 [{ text := "all" }] = [field] ∧
      field.after [.share (.ofText "no"), .write (some 103) (.ofText "three"),
        .share (.ofText " TRUE"), .write (some 105) (.ofText "two"),
        .write (some 103) (.ofText "one")] = .ok field' ∧
      (field'.text (some 103)).toOption.map (·.text) = some "one" ∧
      (field'.text (some 105)).toOption.map (·.text) = some "two") ∧
    ∃ s t u : Stack, StackSnapshot.twoCards.toStack = .ok s ∧
      s.setContents ⟨.part .field .background 101, some 103⟩ (.ofText "one") = .ok t ∧
      t.newCard = .ok (106, u) ∧
      ∃ p ∈ u.allParts, p.isPerCard = true ∧ p.text (some 106) = .ok .empty := by
  obtain ⟨hfields, hstacks⟩ := field_texts_isolated
  constructor
  · obtain ⟨field', hafter, htexts⟩ := hfields { text := "all" } 100 101 _ rfl
      [.share (.ofText "no"), .write (some 103) (.ofText "three"), .share (.ofText " TRUE"),
        .write (some 105) (.ofText "two"), .write (some 103) (.ofText "one")]
    refine ⟨_, field', rfl, hafter, ?_, ?_⟩
    · rw [(htexts 103).1]
      decide +kernel
    · rw [(htexts 105).1]
      decide +kernel
  · obtain ⟨s, t, u, hs, hknown, ht, hu, p, hp, hpercard⟩ : ∃ s t u : Stack,
        StackSnapshot.twoCards.toStack = .ok s ∧ 103 < s.nextId ∧
        s.setContents ⟨.part .field .background 101, some 103⟩ (.ofText "one") = .ok t ∧
        t.newCard = .ok (106, u) ∧ ∃ p ∈ u.allParts, p.isPerCard = true :=
      ⟨_, _, _, rfl, by decide, rfl, rfl, _, List.mem_cons_of_mem _ List.mem_cons_self, rfl⟩
    have hstep : s.KnownStep t := .contents _ _ (by simpa using hknown) ht
    exact ⟨s, t, u, hs, ht, hu, p, hp, hpercard,
      hstacks .twoCards s t hs (.single hstep) 106 u (.inl hu) p hp hpercard⟩

/-- A field does not always start with the text of its snapshot: if the snapshot has a further
property `text`, the field starts with that. -/
theorem field_opens_with_further_text :
    ¬ ∀ (snapshot : PartSnapshot) (owner id : PartId) (field : Part),
      openParts .field .background owner id [snapshot] = [field] → snapshot.opensShared = true →
      ∀ card, field.text (some card) = .ok (.ofText snapshot.text) := by
  intro h
  have htext := h { text := "a", sharedText := true, properties := .ofList [("Text", "b")] }
    100 101 _ rfl (by decide +kernel) 102
  have hother : (Except.ok (Value.ofText "b") : Except Failure Value) = .ok (.ofText "a") := by
    rw [← htext]
    rfl
  exact absurd (congrArg Value.text (Except.ok.inj hother)) (by decide)

end CardScript
