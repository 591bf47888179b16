import CardScript.Proofs.Part.Candidates
import CardScript.Proofs.Stack.Reachable

/-!
# Numbers and identifiers of components

A component can be asked for its number, which is worked out from its identifier and from what owns
it, whereas an address by number counts the candidates of a scope. In an orderly stack the two
agree (`Scope.Row.numberOf`): every component is found again by its number and by its identifier,
and by no other number (`Stack.numbers_and_ids_name_parts`).
-/

namespace CardScript

theorem Finding.findIdx?_of_getElem? {α : Type} {items : List α} {idOf : α → PartId} {a : α}
    {i : Nat} (hnodup : (items.map idOf).Nodup) (hi : items[i]? = some a) :
    items.findIdx? (idOf · == idOf a) = some i := by
  obtain ⟨hlt, rfl⟩ := List.getElem?_eq_some_iff.1 hi
  refine List.findIdx?_eq_some_iff_getElem.2 ⟨hlt, beq_self_eq_true _, fun j hj hid => ?_⟩
  have hj' : (items.map idOf)[j]? = some (idOf items[i]) := by
    rw [List.getElem?_map, List.getElem?_eq_getElem (by omega), Option.map_some, eq_of_beq hid]
  have hi' : (items.map idOf)[i]? = some (idOf items[i]) := by
    rw [List.getElem?_map, hi, Option.map_some]
  have hlt' : j < (items.map idOf).length := by
    rw [List.length_map]
    omega
  exact absurd ((List.getElem?_inj hlt' hnodup).1 (hj'.trans hi'.symm)) (Nat.ne_of_lt hj)

/-! ## The number of a candidate -/

namespace Stack

variable {s : Stack} {i : Nat}

theorem Orderly.siblings?_card (hs : s.Orderly) {c : Card} {p : Part} (hc : c ∈ s.cards)
    (hp : p ∈ c.parts) : s.siblings? .card p.id = some c.parts := by
  have hpart := hs.part?_eq (mem_allParts.2 (.inl ⟨c, hc, hp⟩))
  simp [siblings?, hpart, (hs.card_parts c hc p hp).2, hs.card?_eq hc]

theorem Orderly.siblings?_background (hs : s.Orderly) {b : Background} {p : Part}
    (hb : b ∈ s.backgrounds) (hp : p ∈ b.parts) :
    s.siblings? .background p.id = some b.parts := by
  have hpart := hs.part?_eq (mem_allParts.2 (.inr ⟨b, hb, hp⟩))
  simp [siblings?, hpart, (hs.background_parts b hb p hp).2, hs.background?_eq hb]

theorem Orderly.numberOf_card (hs : s.Orderly) {c : Card} (hi : s.cards[i]? = some c) :
    s.numberOf (.card c.id) = .ok (i + 1) := by
  have hindex : s.cardIndex? c.id = some i := Finding.findIdx?_of_getElem? hs.cards_nodup hi
  simp only [numberOf, hindex]

theorem numberOf_background {b : Background} (hi : s.backgroundsInOrder[i]? = some b) :
    s.numberOf (.background b.id) = .ok (i + 1) := by
  have hindex := Finding.findIdx?_of_getElem? s.backgroundsInOrder_nodup hi
  simp only [numberOf, hindex]

theorem numberOf_part {parts : List Part} {kind : PartKind} {layer : Layer} {p : Part}
    (hnodup : (parts.map (·.id)).Nodup) (hsiblings : s.siblings? layer p.id = some parts)
    (hi : (parts.filter (·.kind == kind))[i]? = some p) :
    s.numberOf (.part kind layer p.id) = .ok (i + 1) := by
  have hindex := Finding.findIdx?_of_getElem? (hnodup.sublist (List.filter_sublist.map _)) hi
  simp only [numberOf, hsiblings, Option.bind_some, hindex]

end Stack

namespace Scope

variable {s : Stack} {scope : Scope} {layer : Option Layer} {type : PartType} {i : Nat}
  {items : List Candidate} {c : Candidate}

/-- The scope counts components of the type as the components themselves do. The cards of a
background are counted among all cards of the stack, and stacks are not counted at all. -/
def Ranks : Scope → PartType → Prop
  | _, .stack => False
  | background _ _, .card => False
  | _, _ => True

theorem Ranks.ne_stack (h : scope.Ranks type) : type ≠ .stack := by
  rintro rfl
  cases scope with
  | _ => exact h.elim

theorem getElem?_partCandidates {parts : List Part} {kind : PartKind} {layer : Layer}
    {context : Option PartId} (hi : (partCandidates parts kind layer context)[i]? = some c) :
    ∃ p ∈ parts, (parts.filter (·.kind == kind))[i]? = some p ∧
      c.found.part = .part kind layer p.id := by
  rw [partCandidates, List.getElem?_map] at hi
  obtain ⟨p, hp, rfl⟩ := Option.map_eq_some_iff.1 hi
  exact ⟨p, (List.mem_filter.1 (List.mem_of_getElem? hp)).1, hp, rfl⟩

/-- The number of a component is its place among the candidates. -/
theorem Row.numberOf (hs : s.Orderly) (h : Row s scope type items) (hranks : scope.Ranks type)
    (hi : items[i]? = some c) : s.numberOf c.found.part = .ok (i + 1) := by
  cases h with
  | empty => cases hi
  | cards =>
    rw [List.getElem?_map] at hi
    obtain ⟨card, hcard, rfl⟩ := Option.map_eq_some_iff.1 hi
    exact hs.numberOf_card hcard
  | cardsOf hscope =>
    rw [hscope] at hranks
    exact hranks.elim
  | backgrounds context =>
    rw [List.getElem?_map] at hi
    obtain ⟨b, hb, rfl⟩ := Option.map_eq_some_iff.1 hi
    exact Stack.numberOf_background hb
  | cardParts kind hcard =>
    obtain ⟨p, hp, hfilter, hpart⟩ := getElem?_partCandidates hi
    rw [hpart]
    exact Stack.numberOf_part (hs.card_parts_nodup hcard) (hs.siblings?_card hcard hp) hfilter
  | backgroundParts kind hb =>
    obtain ⟨p, hp, hfilter, hpart⟩ := getElem?_partCandidates hi
    rw [hpart]
    exact Stack.numberOf_part (hs.background_parts_nodup hb) (hs.siblings?_background hb hp) hfilter

/-- Candidates at different places stand for different components. -/
theorem Row.index_inj (hs : s.Orderly) (h : Row s scope type items) {j : Nat} {c' : Candidate}
    (hi : items[i]? = some c) (hj : items[j]? = some c') (hpart : c.found.part = c'.found.part) :
    i = j := by
  have hid : c.id = c'.id := by
    have hsome := h.id? (List.mem_of_getElem? hi)
    rw [hpart, h.id? (List.mem_of_getElem? hj)] at hsome
    exact (Option.some.inj hsome).symm
  have hfirst := Finding.findIdx?_of_getElem? (h.nodup hs) hi
  have hsecond := Finding.findIdx?_of_getElem? (h.nodup hs) hj
  rw [hid, hsecond] at hfirst
  exact (Option.some.inj hfirst).symm

/-! ## Finding by number, as the last, and by identifier -/

variable {describe : Handle → String} {draws : Draws} {f : Found} {n : Int}

theorem find_number_eq_ok_iff (htype : type ≠ .stack) :
    find s describe draws scope (.number layer type n) = .ok f ↔
      ∃ (i : Nat) (c : Candidate), (candidates s scope layer type)[i]? = some c ∧ n = i + 1 ∧
        c.found = f := by
  rw [find_eq_ok_iff .number htype, pick?, Option.map_eq_some_iff]
  constructor
  · rintro ⟨c, hc, hf⟩
    obtain ⟨i, hi, hn⟩ := Finding.nth?_eq_some_iff.1 hc
    exact ⟨i, c, hi, hn, hf⟩
  · rintro ⟨i, c, hi, hn, hf⟩
    exact ⟨c, Finding.nth?_eq_some_iff.2 ⟨i, hi, hn⟩, hf⟩

/-- The numbers in use run from one to the number of candidates. -/
theorem exists_find_number_iff (htype : type ≠ .stack) :
    (∃ f, find s describe draws scope (.number layer type n) = .ok f) ↔
      1 ≤ n ∧ n ≤ (candidates s scope layer type).length := by
  rw [← Finding.exists_nth?_iff]
  simp only [find_number_eq_ok_iff htype, Finding.nth?_eq_some_iff]
  constructor
  · rintro ⟨f, i, c, hi, hn, -⟩
    exact ⟨c, i, hi, hn⟩
  · rintro ⟨c, i, hi, hn⟩
    exact ⟨_, i, c, hi, hn, rfl⟩

/-- The last of a type is the one with the greatest number. -/
theorem find_last_iff (htype : type ≠ .stack) :
    find s describe draws scope (.ordinal layer type .last) = .ok f ↔
      ∃ k, find s describe draws scope (.number layer type k) = .ok f ∧
        ∀ n g, find s describe draws scope (.number layer type n) = .ok g → n ≤ k := by
  have hlast : find s describe draws scope (.ordinal layer type .last) = .ok f ↔
      find s describe draws scope (.number layer type (candidates s scope layer type).length) =
        .ok f := by
    rw [find_eq_ok_iff .ordinal htype, find_eq_ok_iff .number htype]
    rfl
  rw [hlast]
  constructor
  · intro h
    exact ⟨_, h, fun n g hg => ((exists_find_number_iff htype).1 ⟨g, hg⟩).2⟩
  · rintro ⟨k, hk, hgreatest⟩
    obtain ⟨hone, hle⟩ := (exists_find_number_iff htype).1 ⟨f, hk⟩
    obtain ⟨g, hg⟩ :=
      (exists_find_number_iff htype).2 ⟨Int.le_trans hone hle, Int.le_refl _⟩
    rwa [← Int.le_antisymm hle (hgreatest _ g hg)]

theorem find_id_of_mem (hs : s.Orderly) (hscope : scope.LiesIn s) (htype : type ≠ .stack)
    (hc : c ∈ candidates s scope layer type) :
    find s describe draws scope (.id layer type c.id) = .ok c.found := by
  rw [find_eq_ok_iff .id htype, pick?, Option.map_eq_some_iff]
  have hsome : ((candidates s scope layer type).find? (·.id == c.id)).isSome :=
    List.find?_isSome.2 ⟨c, hc, beq_self_eq_true _⟩
  obtain ⟨c', hc'⟩ := Option.isSome_iff_exists.1 hsome
  have hid : c'.id = c.id := eq_of_beq (List.find?_some hc' :)
  have hsame : c' = c :=
    List.inj_on_of_nodup_map ((row_candidates hscope layer type).nodup hs)
      (List.mem_of_find?_eq_some hc') hc hid
  exact ⟨c', hc', by rw [hsame]⟩

theorem mem_partCandidates {parts : List Part} {p : Part} (hp : p ∈ parts) (layer : Layer)
    (context : Option PartId) :
    Candidate.ofPart p.kind layer context p ∈ partCandidates parts p.kind layer context :=
  List.mem_map_of_mem (List.mem_filter.2 ⟨hp, beq_self_eq_true _⟩)

end Scope

/-! ## Components in the scopes of their owners -/

namespace Stack

open Scope

/-- The component belongs to the scope on a layer: cards, and backgrounds with a card, to the
stack, buttons and fields to the card or the background on which they lie. -/
inductive Owns (s : Stack) : Scope → Option Layer → PartRef → Prop
  | card : c ∈ s.cards → Owns s (.stack view) layer (.card c.id)
  | background : b ∈ s.backgrounds → c ∈ s.cards → c.background = b.id →
    Owns s (.stack view) layer (.background b.id)
  | cardPart : c ∈ s.cards → p ∈ c.parts → layer.getD p.kind.type.usualLayer = .card →
    Owns s (.card c) layer (.part p.kind .card p.id)
  | backgroundPart : b ∈ s.backgrounds → p ∈ b.parts → layer ≠ some .card →
    Owns s (.background b context) layer (.part p.kind .background p.id)

variable {s : Stack} {scope : Scope} {layer : Option Layer} {type : PartType} {n n' : Int}
  {f f' : Found} {r : PartRef} {describe : Handle → String} {draws : Draws}

theorem Owns.liesIn (h : s.Owns scope layer r) : scope.LiesIn s := by
  cases h with
  | card | background => trivial
  | cardPart hc => exact hc
  | backgroundPart hb => exact hb

theorem Owns.ranks (h : s.Owns scope layer r) : scope.Ranks r.type := by
  cases h with
  | card | background => trivial
  | @cardPart c p =>
    rw [PartRef.type]
    cases p.kind with
    | button | field => trivial
  | @backgroundPart b p =>
    rw [PartRef.type]
    cases p.kind with
    | button | field => trivial

/-- What a scope owns is among its candidates. -/
theorem Owns.exists_candidate (hs : s.Orderly) (h : s.Owns scope layer r) :
    ∃ c ∈ candidates s scope layer r.type, c.found.part = r := by
  cases h with
  | card hc => exact ⟨_, List.mem_map_of_mem hc, rfl⟩
  | background hb hc hon =>
    exact ⟨_, List.mem_map_of_mem (hs.mem_backgroundsInOrder hb hc hon), rfl⟩
  | @cardPart c p _ hc hp hlayer =>
    have hkind : p.kind.type.kind? = some p.kind := by
      cases p.kind with
      | button | field => rfl
    refine ⟨.ofPart p.kind .card (some c.id) p, ?_, rfl⟩
    rw [candidates, cardCandidates, PartRef.type, hlayer, hkind]
    exact mem_partCandidates hp .card (some c.id)
  | @backgroundPart b p _ context hb hp hlayer =>
    have hcandidates : candidates s (.background b context) layer p.kind.type =
        partCandidates b.parts p.kind .background context := by
      cases p.kind with
      | button | field => exact if_neg hlayer
    refine ⟨.ofPart p.kind .background context p, ?_, rfl⟩
    rw [PartRef.type, hcandidates]
    exact mem_partCandidates hp .background context

theorem Orderly.numberOf_of_find (hs : s.Orderly) (hscope : scope.LiesIn s)
    (hranks : scope.Ranks type) (h : find s describe draws scope (.number layer type n) = .ok f) :
    ∃ k : Nat, s.numberOf f.part = .ok k ∧ (k : Int) = n := by
  obtain ⟨i, c, hi, rfl, rfl⟩ := (find_number_eq_ok_iff hranks.ne_stack).1 h
  exact ⟨i + 1, (row_candidates hscope layer type).numberOf hs hranks hi, by omega⟩

theorem Orderly.number_inj (hs : s.Orderly) (hscope : scope.LiesIn s) (htype : type ≠ .stack)
    (h : find s describe draws scope (.number layer type n) = .ok f)
    (h' : find s describe draws scope (.number layer type n') = .ok f')
    (hpart : f.part = f'.part) : n = n' := by
  obtain ⟨i, c, hi, rfl, rfl⟩ := (find_number_eq_ok_iff htype).1 h
  obtain ⟨j, c', hj, rfl, rfl⟩ := (find_number_eq_ok_iff htype).1 h'
  rw [(row_candidates hscope layer type).index_inj hs hi hj hpart]

/-- What a scope owns is found there by its number and by its identifier. -/
theorem Owns.found_again (hs : s.Orderly) (h : s.Owns scope layer r) :
    ∃ (k : Nat) (id : PartId), s.numberOf r = .ok k ∧ r.id? = some id ∧
      (∃ f, find s describe draws scope (.number layer r.type k) = .ok f ∧ f.part = r) ∧
      ∃ f, find s describe draws scope (.id layer r.type id) = .ok f ∧ f.part = r := by
  have hranks := h.ranks
  obtain ⟨c, hc, rfl⟩ := h.exists_candidate hs
  have hrow := row_candidates h.liesIn layer c.found.part.type
  obtain ⟨i, hi⟩ := List.mem_iff_getElem?.1 hc
  refine ⟨i + 1, c.id, hrow.numberOf hs hranks hi, hrow.id? hc, ⟨c.found, ?_, rfl⟩, c.found, ?_,
    rfl⟩
  · exact (find_number_eq_ok_iff hranks.ne_stack).2 ⟨i, c, hi, by omega, rfl⟩
  · exact find_id_of_mem hs h.liesIn hranks.ne_stack hc

/-- Numbers and identifiers name the components of a reachable stack. A component found by a number
has that number, where the scope counts as the component does; different numbers find different
components; the last is the one with the greatest number; and all that a scope owns is found there
by its own number and by its identifier. -/
theorem numbers_and_ids_name_parts (hs : s.Reachable) (describe : Handle → String)
    (draws : Draws) :
    (∀ scope layer type n f, scope.LiesIn s → scope.Ranks type →
      find s describe draws scope (.number layer type n) = .ok f →
      ∃ k : Nat, s.numberOf f.part = .ok k ∧ (k : Int) = n) ∧
    (∀ scope layer type n n' f f', scope.LiesIn s → type ≠ .stack →
      find s describe draws scope (.number layer type n) = .ok f →
      find s describe draws scope (.number layer type n') = .ok f' →
      f.part = f'.part → n = n') ∧
    (∀ scope layer type f, scope.LiesIn s → type ≠ .stack →
      (find s describe draws scope (.ordinal layer type .last) = .ok f ↔
        ∃ k, find s describe draws scope (.number layer type k) = .ok f ∧
          ∀ n g, find s describe draws scope (.number layer type n) = .ok g → n ≤ k)) ∧
    ∀ scope layer r, s.Owns scope layer r →
      ∃ (k : Nat) (id : PartId), s.numberOf r = .ok k ∧ r.id? = some id ∧
        (∃ f, find s describe draws scope (.number layer r.type k) = .ok f ∧ f.part = r) ∧
        ∃ f, find s describe draws scope (.id layer r.type id) = .ok f ∧ f.part = r := by
  have hs := hs.coherent.toOrderly
  refine ⟨fun _ _ _ _ _ hscope hranks h => hs.numberOf_of_find hscope hranks h,
    fun _ _ _ _ _ _ _ hscope htype h h' => hs.number_inj hscope htype h h',
    fun _ _ _ _ _ htype => find_last_iff htype, fun _ _ _ h => h.found_again hs⟩

theorem numbers_and_ids_name_parts_twoCards :
    ∃ (s : Stack) (c : Card), s.Reachable ∧ s.Owns (.card c) none (.part .button .card 104) ∧
      (∃ f, find s (fun _ => "") {} (.card c) (.id none .button 104) = .ok f ∧
        f.part = .part .button .card 104) ∧
      find s (fun _ => "") {} (.stack 103) (.number none .card 2) = .ok (.ofCard 105) ∧
      s.numberOf (.card 105) = .ok 2 := by
  obtain ⟨s, c, p, hs, hc, hp, hkind, hid, hfind⟩ : ∃ (s : Stack) (c : Card) (p : Part),
      s.Reachable ∧ c ∈ s.cards ∧ p ∈ c.parts ∧ p.kind = .button ∧ p.id = 104 ∧
      find s (fun _ => "") {} (.stack 103) (.number none .card 2) = .ok (.ofCard 105) :=
    ⟨_, _, _, ⟨.twoCards, _, rfl, .refl⟩, .head _, .head _, rfl, rfl, rfl⟩
  have howns : s.Owns (.card c) none (.part .button .card 104) := by
    rw [← hkind, ← hid]
    exact .cardPart hc hp (by rw [hkind]; rfl)
  obtain ⟨hnumber, -, -, hfound⟩ := numbers_and_ids_name_parts hs (fun _ => "") {}
  obtain ⟨k, hk, htwo⟩ := hnumber (.stack 103) none .card 2 _ trivial trivial hfind
  obtain ⟨-, id, -, hid, -, hbutton⟩ := hfound _ _ _ howns
  cases hid
  have htwo : k = 2 := by omega
  exact ⟨s, c, hs, howns, hbutton, hfind, htwo ▸ hk⟩

end Stack

end CardScript
