import CardScript.Proofs.Part.Finding
import CardScript.Proofs.Stack.Reachable

/-!
# Addresses find what they name

A resolved address is a component of the stack, of the type the address names, and is seen through
a card that shows it (`Stack.Holds`); what is found `of` an owner lies inside it (`Stack.Inside`).
The proof is one induction over addresses, for all scopes that lie in the stack (`Scope.Valid`).
Parts that an address knows already have to be live (`Stack.Live`): found earlier and not removed
since, nor the card they were found through.
-/

namespace CardScript

/-- A component of the stack with a card that shows it: for a card that card, for a part of a card
its owner, and for a background and its parts some card on the background. -/
inductive Stack.Holds (s : Stack) : Found → Prop
  | stack : s.Holds ⟨.stack, none⟩
  | card : c ∈ s.cards → s.Holds ⟨.card c.id, some c.id⟩
  | background : b ∈ s.backgrounds → c ∈ s.cards → c.background = b.id →
    s.Holds ⟨.background b.id, some c.id⟩
  | cardPart : c ∈ s.cards → p ∈ c.parts → p.layer = .card → p.owner = c.id →
    s.Holds ⟨.part p.kind p.layer p.id, some c.id⟩
  | backgroundPart : b ∈ s.backgrounds → p ∈ b.parts → p.layer = .background → p.owner = b.id →
    c ∈ s.cards → c.background = b.id → s.Holds ⟨.part p.kind p.layer p.id, some c.id⟩

theorem Stack.Holds.ofCard {s : Stack} {c : Card} {id : PartId} (hc : c ∈ s.cards)
    (hid : c.id = id) : s.Holds (.ofCard id) := by
  rw [← hid]
  exact .card hc

/-- What lies inside a component. Parts of a card and of its background are seen through that card,
parts of a background through the card the background was found through. -/
inductive Stack.Inside (s : Stack) : (owner inner : Found) → Prop
  | stack : s.Inside ⟨.stack, none⟩ f
  | cardPart : c ∈ s.cards → p ∈ c.parts →
    s.Inside ⟨.card c.id, some c.id⟩ ⟨.part p.kind .card p.id, some c.id⟩
  | cardBackgroundPart : c ∈ s.cards → b ∈ s.backgrounds → c.background = b.id → p ∈ b.parts →
    s.Inside ⟨.card c.id, some c.id⟩ ⟨.part p.kind .background p.id, some c.id⟩
  | cardBackground : c ∈ s.cards →
    s.Inside ⟨.card c.id, some c.id⟩ ⟨.background c.background, some c.id⟩
  | backgroundCard : b ∈ s.backgrounds → c ∈ s.cards → c.background = b.id →
    s.Inside ⟨.background b.id, context⟩ ⟨.card c.id, some c.id⟩
  | backgroundPart : b ∈ s.backgrounds → p ∈ b.parts →
    s.Inside ⟨.background b.id, context⟩ ⟨.part p.kind .background p.id, context⟩

namespace Specifier

/-- Not made of other addresses, nor known, nor the address of a stack. -/
def Simple : Specifier → Prop
  | of _ _ | resolved _ | stack _ => False
  | id _ _ _ | name _ _ _ _ | number _ _ _ | ordinal _ _ _ | position _ _ => True

/-- The parts that an address knows already. -/
def known : Specifier → List Found
  | of part owner => part.known ++ owner.known
  | resolved h => [h.found]
  | id _ _ _ | name _ _ _ _ | number _ _ _ | ordinal _ _ _ | position _ _ | stack _ => []

end Specifier

namespace Scope

/-- The scope lies in the stack. -/
def Valid (s : Stack) : Scope → Prop
  | stack current => ∃ c ∈ s.cards, c.id = current
  | card c => c ∈ s.cards
  | background b context =>
    b ∈ s.backgrounds ∧ ∃ c ∈ s.cards, c.background = b.id ∧ context = some c.id

/-- The component that the scope is. -/
def component : Scope → Found
  | stack _ => ⟨.stack, none⟩
  | card c => ⟨.card c.id, some c.id⟩
  | background b context => ⟨.background b.id, context⟩

variable {s : Stack} {f : Found} {spec : Specifier} {scope : Scope}

theorem Valid.current (h : scope.Valid s) : (stack (scope.current s)).Valid s := by
  cases scope with
  | stack current => exact h
  | card c => exact ⟨c, h, rfl⟩
  | background b context =>
    obtain ⟨_, c, hc, _, rfl⟩ := h
    exact ⟨c, hc, rfl⟩

/-- What is held can be an owner, unless it is a part. -/
theorem ofOwner_eq_ok (hf : s.Holds f) (hcurrent : (stack seenFrom).Valid s)
    (h : ofOwner s seenFrom f missing = .ok scope) : scope.Valid s ∧ scope.component = f := by
  cases hf with
  | stack =>
    cases h
    exact ⟨hcurrent, rfl⟩
  | card hc =>
    simp only [ofOwner] at h
    split at h
    next c' hc' =>
      cases h
      obtain ⟨hmem, hid⟩ := Stack.card?_eq_some hc'
      exact ⟨hmem, by rw [component, hid]⟩
    next => cases h
  | background hb hc hon =>
    simp only [ofOwner] at h
    split at h
    next b' hb' =>
      cases h
      obtain ⟨hmem, hid⟩ := Stack.background?_eq_some hb'
      exact ⟨⟨hmem, _, hc, hon.trans hid.symm, rfl⟩, by rw [component, hid]; rfl⟩
    next => cases h
  | cardPart => cases h
  | backgroundPart => cases h

end Scope

/-! ## Simple addresses -/

namespace Stack.Orderly

variable {s : Stack} {c : Card} {b : Background} {p : Part}

theorem holds_background (hs : s.Orderly) (hc : c ∈ s.cards) :
    s.Holds ⟨.background c.background, some c.id⟩ := by
  obtain ⟨b, hb, hon⟩ := hs.background_mem c hc
  rw [← hon]
  exact .background hb hc hon.symm

theorem holds_cardPart (hs : s.Orderly) (hc : c ∈ s.cards) (hp : p ∈ c.parts) :
    s.Holds ⟨.part p.kind .card p.id, some c.id⟩ := by
  obtain ⟨hlayer, howner⟩ := hs.card_parts c hc p hp
  rw [← hlayer]
  exact .cardPart hc hp hlayer howner

theorem holds_backgroundPart (hs : s.Orderly) (hb : b ∈ s.backgrounds) (hp : p ∈ b.parts)
    (hc : c ∈ s.cards) (hon : c.background = b.id) :
    s.Holds ⟨.part p.kind .background p.id, some c.id⟩ := by
  obtain ⟨hlayer, howner⟩ := hs.background_parts b hb p hp
  rw [← hlayer]
  exact .backgroundPart hb hp hlayer howner hc hon

end Stack.Orderly

namespace Scope

variable {s : Stack} {f : Found} {spec : Specifier} {scope : Scope}

/-- What a simple address may find in a scope. -/
structure Finds (s : Stack) (scope : Scope) (spec : Specifier) (f : Found) : Prop where
  holds : s.Holds f
  type_eq : f.part.type = spec.type
  inside : s.Inside scope.component f

theorem findOnCard_finds (hs : s.Orderly) (hc : c ∈ s.cards)
    (h : findOnCard s draws c missing spec = .ok f) : (card c).Finds s spec f := by
  rcases findOnCard_eq_ok h with ⟨htype, rfl⟩ | ⟨p, hp, htype, rfl⟩ |
    ⟨b, hb, hon, p, hp, htype, rfl⟩
  · exact ⟨hs.holds_background hc, htype.symm, .cardBackground hc⟩
  · exact ⟨hs.holds_cardPart hc hp, htype.symm, .cardPart hc hp⟩
  · exact ⟨hs.holds_backgroundPart hb hp hc hon.symm, htype.symm,
      .cardBackgroundPart hc hb hon.symm hp⟩

theorem findOnBackground_finds (hs : s.Orderly) (hscope : (background b context).Valid s)
    (h : findOnBackground s draws b context missing spec = .ok f) :
    (background b context).Finds s spec f := by
  obtain ⟨hb, c, hc, hon, rfl⟩ := hscope
  rcases findOnBackground_eq_ok h with ⟨htype, c', hc', hon', rfl⟩ | ⟨p, hp, htype, rfl⟩
  · exact ⟨.card hc', htype.symm, .backgroundCard hb hc' hon'⟩
  · exact ⟨hs.holds_backgroundPart hb hp hc hon, htype.symm, .backgroundPart hb hp⟩

theorem findInStack_finds (hs : s.Orderly)
    (h : findInStack s draws seenFrom missing spec = .ok f) :
    (stack seenFrom).Finds s spec f := by
  unfold findInStack at h
  split at h
  next htype =>
    cases h
    exact ⟨.stack, htype.symm, .stack⟩
  next htype =>
    obtain ⟨c, hc, rfl⟩ := findCard_eq_ok h
    exact ⟨.card hc, htype.symm, .stack⟩
  next htype =>
    obtain ⟨c, hc, rfl⟩ := findBackground_eq_ok h
    exact ⟨hs.holds_background hc, htype.symm, .stack⟩
  all_goals
    obtain ⟨index, _, h⟩ := Failure.bind_eq_ok.1 h
    split at h
    next c hc =>
      have hfinds := findOnCard_finds hs (List.mem_of_getElem? hc) h
      exact ⟨hfinds.holds, hfinds.type_eq, .stack⟩
    next => cases h

theorem find_simple_finds (hs : s.Orderly) (hscope : scope.Valid s)
    (h : find s describe draws scope spec = .ok f) (hsimple : spec.Simple) :
    scope.Finds s spec f := by
  cases spec with
  | of part owner => exact hsimple.elim
  | resolved handle => exact hsimple.elim
  | stack name => exact hsimple.elim
  | _ =>
    cases scope with
    | stack seenFrom => exact findInStack_finds hs h
    | card c => exact findOnCard_finds hs hscope h
    | background b context => exact findOnBackground_finds hs hscope h

theorem find_of_eq_ok (h : find s describe draws scope (.of part whole) = .ok f) :
    ∃ g inner, find s describe draws (stack (scope.current s)) whole = .ok g ∧
      ofOwner s (scope.current s) g (.noSuchPart (part.text describe)) = .ok inner ∧
      find s describe (draws.skip whole.draws) inner part = .ok f := by
  obtain ⟨g, hg, h⟩ := Failure.bind_eq_ok.1 h
  obtain ⟨inner, hinner, h⟩ := Failure.bind_eq_ok.1 h
  exact ⟨g, inner, hg, hinner, h⟩

/-- Addresses find components of their type, in all scopes that lie in the stack. -/
theorem find_holds (hs : s.Orderly) (hknown : ∀ g ∈ spec.known, s.Holds g)
    (hscope : scope.Valid s) (h : find s describe draws scope spec = .ok f) :
    s.Holds f ∧ f.part.type = spec.type := by
  induction spec generalizing scope draws f with
  | of part whole ihPart ihWhole =>
    obtain ⟨g, inner, hg, hinner, h⟩ := find_of_eq_ok h
    have hwhole := ihWhole (fun k hk => hknown k (List.mem_append_right _ hk)) hscope.current hg
    obtain ⟨hvalid, _⟩ := ofOwner_eq_ok hwhole.1 hscope.current hinner
    exact ihPart (fun k hk => hknown k (List.mem_append_left _ hk)) hvalid h
  | resolved handle =>
    cases h
    exact ⟨hknown _ List.mem_cons_self, rfl⟩
  | stack name =>
    cases h
    exact ⟨.stack, rfl⟩
  | _ =>
    have hfinds := find_simple_finds hs hscope h trivial
    exact ⟨hfinds.holds, hfinds.type_eq⟩

/-- What is found of an owner lies inside it. -/
theorem find_of_inside (hs : s.Orderly) (hknown : ∀ g ∈ whole.known, s.Holds g)
    (hscope : scope.Valid s) (hsimple : part.Simple)
    (h : find s describe draws scope (.of part whole) = .ok f) :
    ∃ g, find s describe draws (stack (scope.current s)) whole = .ok g ∧ s.Inside g f := by
  obtain ⟨g, inner, hg, hinner, h⟩ := find_of_eq_ok h
  have hwhole := find_holds hs hknown hscope.current hg
  obtain ⟨hvalid, rfl⟩ := ofOwner_eq_ok hwhole.1 hscope.current hinner
  exact ⟨_, hg, (find_simple_finds hs hvalid h hsimple).inside⟩

end Scope

/-! ## Known parts -/

namespace Stack

variable {s t : Stack} {f : Found}

/-- The component is in the stack, and so is the card it was found through. -/
structure Keeps (s : Stack) (f : Found) : Prop where
  part : (s.tableOf? f.part).isSome
  card : ∀ id, f.card = some id → (s.card? id).isSome

/-- A component found earlier that is still in the stack. -/
def Live (s : Stack) (f : Found) : Prop :=
  ∃ s₀ : Stack, s₀.Reachable ∧ s₀.Leads s ∧ s₀.Holds f ∧ s.Keeps f

theorem Keeps.exists_card {id : PartId} (h : s.Keeps f) (hid : f.card = some id) :
    ∃ c ∈ s.cards, c.id = id :=
  isSome_card?.1 (h.card id hid)

theorem Keeps.exists_part {id : PartId} (h : s.Keeps ⟨.part kind layer id, context⟩) :
    ∃ p ∈ s.allParts, p.id = id := by
  have hpart : (s.part? id).isSome := by simpa [tableOf?] using h.part
  obtain ⟨p, hp⟩ := Option.isSome_iff_exists.1 hpart
  exact ⟨p, part?_eq_some hp⟩

/-- What was held once is held as long as it is there: cards stay on their backgrounds, and parts
with their owners. -/
theorem Holds.of_keeps (hs : s.Orderly) (ht : t.Orderly) (hst : s.Precedes t) (hf : s.Holds f)
    (hkeeps : t.Keeps f) : t.Holds f := by
  cases hf with
  | stack => exact .stack
  | card hc =>
    obtain ⟨c', hc', hid⟩ := hkeeps.exists_card rfl
    exact .ofCard hc' hid
  | background hb hc hon =>
    obtain ⟨c', hc', hid⟩ := hkeeps.exists_card rfl
    obtain ⟨_, hbackground⟩ := Card.of_outline_eq (hst.card_outline_eq hs hc hc' hid)
    rw [← hid, ← hon, ← hbackground]
    exact ht.holds_background hc'
  | cardPart hc hp hlayer howner =>
    obtain ⟨p', hp', hid⟩ := hkeeps.exists_part
    have houtline := hst.part_outline_eq hs (mem_allParts.2 (.inl ⟨_, hc, hp⟩)) hp' hid
    obtain ⟨_, hkind, hlayer', howner'⟩ := Part.of_outline_eq houtline
    rw [← hid, ← hkind, ← hlayer', ← howner, ← howner']
    rcases mem_allParts.1 hp' with ⟨c', hc', hp'⟩ | ⟨b', hb', hp'⟩
    · obtain ⟨hlayer', howner'⟩ := ht.card_parts c' hc' p' hp'
      rw [howner']
      exact .cardPart hc' hp' hlayer' howner'
    · obtain ⟨hbackground, _⟩ := ht.background_parts b' hb' p' hp'
      cases (hbackground.symm.trans hlayer').trans hlayer
  | backgroundPart hb hp hlayer howner hc hon =>
    obtain ⟨p', hp', hid⟩ := hkeeps.exists_part
    have houtline := hst.part_outline_eq hs (mem_allParts.2 (.inr ⟨_, hb, hp⟩)) hp' hid
    obtain ⟨_, hkind, hlayer', howner'⟩ := Part.of_outline_eq houtline
    obtain ⟨c', hc', hcard⟩ := hkeeps.exists_card rfl
    obtain ⟨_, hbackground⟩ := Card.of_outline_eq (hst.card_outline_eq hs hc hc' hcard)
    rw [← hid, ← hkind, ← hlayer', ← hcard]
    rcases mem_allParts.1 hp' with ⟨d, hd, hp'⟩ | ⟨b', hb', hp'⟩
    · obtain ⟨hcard, _⟩ := ht.card_parts d hd p' hp'
      cases (hcard.symm.trans hlayer').trans hlayer
    · obtain ⟨hlayer'', howner''⟩ := ht.background_parts b' hb' p' hp'
      have hon' := hbackground.trans (hon.trans (howner.symm.trans (howner'.symm.trans howner'')))
      exact .backgroundPart hb' hp' hlayer'' howner'' hc' hon'

theorem Live.holds (h : t.Live f) : t.Holds f := by
  obtain ⟨s, hs, hleads, hf, hkeeps⟩ := h
  obtain ⟨ht, hst⟩ := hs.coherent.leads hleads
  exact hf.of_keeps hs.coherent.toOrderly ht.toOrderly hst hkeeps

end Stack

/-! ## Addresses in reachable stacks -/

namespace Scope

/-- An address looked up in a reachable stack, from any of its cards, finds a component of the
stack, of the type of the address, with a card that shows it. What a simple address finds of an
owner lies inside that owner. -/
theorem find_sound {s : Stack} (hs : s.Reachable) (hcurrent : ∃ c ∈ s.cards, c.id = seenFrom)
    (hlive : ∀ g ∈ spec.known, s.Live g)
    (h : find s describe draws (stack seenFrom) spec = .ok f) :
    s.Holds f ∧ f.part.type = spec.type ∧
    ∀ part whole, spec = .of part whole → part.Simple →
      ∃ g, find s describe draws (stack seenFrom) whole = .ok g ∧ s.Inside g f := by
  have horderly := hs.coherent.toOrderly
  have hscope : (stack seenFrom).Valid s := hcurrent
  have hknown := fun g hg => (hlive g hg).holds
  obtain ⟨hholds, htype⟩ := find_holds horderly hknown hscope h
  refine ⟨hholds, htype, ?_⟩
  rintro part whole rfl hsimple
  refine find_of_inside horderly (fun g hg => ?_) hscope hsimple h
  exact hknown g (List.mem_append_right _ hg)

theorem find_sound_twoCards :
    ∃ s : Stack, s.Reachable ∧
      find s (fun _ => "") {} (stack 105)
        (.of (.number none .field 1) (.resolved ⟨0, .ofCard 103⟩)) =
          .ok ⟨.part .field .background 101, some 103⟩ ∧
      s.Holds ⟨.part .field .background 101, some 103⟩ := by
  obtain ⟨s, hs, hcards, hfind⟩ : ∃ s : Stack, s.Reachable ∧ s.cards.map (·.id) = [103, 105] ∧
      find s (fun _ => "") {} (stack 105)
        (.of (.number none .field 1) (.resolved ⟨0, .ofCard 103⟩)) =
          .ok ⟨.part .field .background 101, some 103⟩ :=
    ⟨_, ⟨.twoCards, _, rfl, .refl⟩, rfl, rfl⟩
  have hmem (id : PartId) (hid : id ∈ [103, 105]) : ∃ c ∈ s.cards, c.id = id :=
    List.mem_map.1 (hcards ▸ hid)
  have hlive : s.Live (.ofCard 103) := by
    obtain ⟨c, hc, hid⟩ := hmem 103 (by decide)
    have hsome := Stack.isSome_card?.2 ⟨c, hc, hid⟩
    refine ⟨s, hs, .refl, .ofCard hc hid, by simpa [Found.ofCard, Stack.tableOf?] using hsome, ?_⟩
    rintro id ⟨⟩
    exact hsome
  refine ⟨s, hs, hfind, (find_sound hs (hmem 105 (by decide)) ?_ hfind).1⟩
  simpa [Specifier.known] using hlive

end Scope

end CardScript
