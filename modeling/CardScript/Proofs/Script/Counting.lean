import CardScript.Proofs.Part.Numbering
import CardScript.Proofs.Part.Resolution
import CardScript.Proofs.Script.Whereabouts

/-!
# Counting and addressing

Parts are counted by a table of their own, from the type, the layer and the kind of the owner. It
counts the candidates of the owner's scope (`Stack.Orderly.exists_numbered_iff`), so the numbers by
which parts of that owner can be addressed run from one to the count (`count_agrees_with_numbers`).
There is one exception: the layer is overlooked where buttons and fields of a background are
counted, so card buttons are counted there that no address finds (`count_overlooks_layer`).
-/

namespace CardScript

/-- Card buttons or card fields are asked of a background, which has none. -/
def PartType.Misplaced (type : PartType) (layer : Option Layer) (owner : PartRef) : Prop :=
  type.kind?.isSome ∧ layer = some .card ∧ owner.type = .background

namespace Stack

open Scope

/-- What is counted, and of which owners. -/
inductive Counts (s : Stack) : PartType → Option Layer → PartRef → Nat → Prop
  | cards {layer} : Counts s .card layer .stack s.cards.length
  | backgrounds {layer} : Counts s .background layer .stack s.backgroundsInOrder.length
  | cardsOf {layer id} : Counts s .card layer (.background id) (s.cardsOf id).length
  | onCard {type layer kind id c} : type.kind? = some kind → s.card? id = some c →
    Counts s type layer (.card id) (cardCandidates s c layer type).length
  | onBackground {type layer kind id b} : type.kind? = some kind → s.background? id = some b →
    Counts s type layer (.background id) (b.parts.filter fun p => p.kind.type == type).length

variable {s : Stack} {layer : Option Layer} {type : PartType} {owner : Found} {scope : Scope}
  {seenFrom : PartId} {missing : Failure} {k : Nat}

theorem length_partCandidates {kind : PartKind} (hkind : type.kind? = some kind)
    (parts : List Part) (layer : Layer) (context : Option PartId) :
    (partCandidates parts kind layer context).length =
      (parts.filter fun p => p.kind.type == type).length := by
  have hsame (p : Part) : (p.kind == kind) = (p.kind.type == type) := by
    cases type with
    | button | field =>
      cases hkind
      cases p.kind with
      | button | field => rfl
    | _ => cases hkind
  rw [partCandidates, List.length_map, funext hsame]

theorem length_backgroundCandidates {kind : PartKind} (hkind : type.kind? = some kind)
    (hlayer : layer ≠ some .card) (b : Background) (context : Option PartId) :
    (backgroundCandidates s b context layer type).length =
      (b.parts.filter fun p => p.kind.type == type).length := by
  cases type with
  | button | field =>
    rw [backgroundCandidates, if_neg hlayer]
    exact length_partCandidates rfl ..
  | _ => cases hkind

theorem length_cardCandidates {kind : PartKind} (hkind : type.kind? = some kind)
    {id : PartId} {c : Card} (hc : s.card? id = some c)
    (hcount : s.countParts? type layer (.card id) = some k) :
    (cardCandidates s c layer type).length = k := by
  rw [cardCandidates, hkind]
  cases type with
  | button | field =>
    simp only [countParts?, hc, Option.bind_eq_bind, Option.bind_some] at hcount
    cases hlayer : layer.getD (PartType.usualLayer _) with
    | card =>
      rw [hlayer] at hcount
      cases hcount
      exact length_partCandidates hkind ..
    | background =>
      rw [hlayer] at hcount
      obtain ⟨b, hb, hcount⟩ := Option.bind_eq_some_iff.1 hcount
      have hne : layer ≠ some .card := by
        rintro rfl
        cases hlayer
      cases hcount
      rw [hb]
      exact length_backgroundCandidates (s := s) hkind hne b (some c.id)
  | _ => cases hkind

theorem counts_of_countParts? {owner : PartRef} (h : s.countParts? type layer owner = some k) :
    s.Counts type layer owner k := by
  cases owner with
  | stack =>
    cases type with
    | card =>
      cases h
      exact .cards
    | background =>
      cases h
      exact .backgrounds
    | _ => cases h
  | card id =>
    cases type with
    | button | field =>
      obtain ⟨c, hc, -⟩ := Option.bind_eq_some_iff.1 h
      rw [← length_cardCandidates rfl hc h]
      exact .onCard rfl hc
    | _ => cases h
  | background id =>
    cases type with
    | card =>
      cases h
      exact .cardsOf
    | button | field =>
      obtain ⟨b, hb, h⟩ := Option.bind_eq_some_iff.1 h
      cases h
      exact .onBackground rfl hb
    | _ => cases h
  | part =>
    cases type with
    | _ => cases h

theorem Counts.ne_stack {owner : PartRef} (h : s.Counts type layer owner k) : type ≠ .stack := by
  rintro rfl
  cases h with
  | onCard hkind | onBackground hkind => cases hkind

/-- The candidates of the owner's scope are counted. -/
theorem Counts.length_candidates (h : s.Counts type layer owner.part k)
    (hscope : ofOwner s seenFrom owner missing = .ok scope)
    (hplace : ¬type.Misplaced layer owner.part) : (candidates s scope layer type).length = k := by
  obtain ⟨part, card⟩ := owner
  cases h with
  | cards | backgrounds =>
    cases hscope
    exact List.length_map ..
  | @cardsOf _ id =>
    simp only [ofOwner] at hscope
    split at hscope
    next b hb =>
      cases hscope
      rw [candidates, backgroundCandidates, List.length_map, (background?_eq_some hb).2]
    next => cases hscope
  | onCard hkind hc =>
    simp only [ofOwner, hc] at hscope
    cases hscope
    rfl
  | onBackground hkind hb =>
    simp only [ofOwner, hb] at hscope
    cases hscope
    refine length_backgroundCandidates hkind (fun hlayer => hplace ⟨?_, hlayer, rfl⟩) ..
    rw [hkind]
    rfl

theorem candidates_of_misplaced (hplace : type.Misplaced layer owner.part)
    (hscope : ofOwner s seenFrom owner missing = .ok scope) :
    candidates s scope layer type = [] := by
  obtain ⟨part, card⟩ := owner
  obtain ⟨hkind, rfl, hbackground⟩ := hplace
  cases part with
  | background id =>
    simp only [ofOwner] at hscope
    split at hscope
    next =>
      cases hscope
      cases type with
      | button | field => rfl
      | _ => cases hkind
    next => cases hscope
  | part kind layer id =>
    cases kind with
    | button | field => cases hbackground
  | _ => cases hbackground

/-- Nothing is counted of an owner that is gone: no card lies on a background that is gone. -/
theorem Orderly.count_of_gone (hs : s.Orderly) (h : s.Counts type layer owner.part k)
    {failure : Failure} (hscope : ofOwner s seenFrom owner missing = .error failure) : k = 0 := by
  obtain ⟨part, card⟩ := owner
  cases h with
  | cards | backgrounds => cases hscope
  | @cardsOf _ id =>
    simp only [ofOwner] at hscope
    split at hscope
    next => cases hscope
    next hgone =>
      refine List.length_eq_zero_iff.2 (List.filter_eq_nil_iff.2 fun c hc hon => ?_)
      obtain ⟨b, hb, hid⟩ := hs.background_mem c hc
      rw [← eq_of_beq hon, ← hid, hs.background?_eq hb] at hgone
      cases hgone
  | onCard _ hc =>
    simp only [ofOwner, hc] at hscope
    cases hscope
  | onBackground _ hb =>
    simp only [ofOwner, hb] at hscope
    cases hscope

/-- In the scope of an owner the numbers from one to the count find something, and no others. -/
theorem Orderly.exists_numbered_iff (hs : s.Orderly)
    (h : s.Counts type layer owner.part k) {describe : Handle → String} {draws : Draws} {n : Int} :
    (∃ scope f, ofOwner s seenFrom owner missing = .ok scope ∧
      find s describe draws scope (.number layer type n) = .ok f) ↔
    1 ≤ n ∧ n ≤ k ∧ ¬type.Misplaced layer owner.part := by
  cases hscope : ofOwner s seenFrom owner missing with
  | error failure =>
    have hzero := hs.count_of_gone h hscope
    constructor
    · rintro ⟨scope, f, h, -⟩
      cases h
    · rintro ⟨hone, hle, -⟩
      omega
  | ok scope =>
    have hbounds : 1 ≤ n ∧ n ≤ (candidates s scope layer type).length ↔
        1 ≤ n ∧ n ≤ k ∧ ¬type.Misplaced layer owner.part := by
      by_cases hplace : type.Misplaced layer owner.part
      · rw [candidates_of_misplaced hplace hscope]
        constructor
        · rintro ⟨hone, hle⟩
          exact absurd (Int.le_trans hone hle) (by decide)
        · rintro ⟨-, -, hnot⟩
          exact absurd hplace hnot
      · rw [h.length_candidates hscope hplace]
        exact ⟨fun ⟨hone, hle⟩ => ⟨hone, hle, hplace⟩, fun ⟨hone, hle, _⟩ => ⟨hone, hle⟩⟩
    rw [← hbounds, ← exists_find_number_iff h.ne_stack]
    constructor
    · rintro ⟨inner, f, ⟨⟩, hf⟩
      exact ⟨f, hf⟩
    · rintro ⟨f, hf⟩
      exact ⟨scope, f, rfl, hf⟩

end Stack

/-! ## Counting in scripts -/

/-- The owner whose parts are counted. -/
def ownerOf (invoke : Invoke) (type : PartType) : Option PartExpr → Action Handle
  | some owner => resolvePart invoke owner
  | none => usualOwner type

variable {invoke : Invoke} {type : PartType} {layer : Option Layer} {m m' : Machine} {v : Value}
  {part : Handle} {n : Int}

theorem evalExpr_countParts (invoke : Invoke) (type : PartType) (layer : Option Layer)
    (owner : Option PartExpr) :
    evalExpr invoke (.countParts type layer owner) =
      ownerOf invoke type owner >>= countParts type layer := by
  cases owner with
  | none => rw [evalExpr, ownerOf]
  | some owner =>
    rw [evalExpr, ownerOf, resolvePart, bind_assoc]

theorem countParts_eq_ok (h : countParts type layer part m = .ok v m') :
    m' = m ∧ ∃ k : Nat,
      (m.world.stack part.stack).Counts type layer part.found.part k ∧ v = .ofInt k := by
  have hask : Action.ask (·.world) m = .ok m.world m := rfl
  rw [countParts, Action.bind_apply_ok hask] at h
  cases hk : (m.world.stack part.stack).countParts? type layer part.found.part with
  | some k =>
    rw [hk] at h
    cases h
    exact ⟨rfl, k, Stack.counts_of_countParts? hk, rfl⟩
  | none =>
    rw [hk] at h
    cases h

namespace Machine

open Scope

/-- An address of an owner is looked up in the scope that the owner is. -/
theorem exists_resolve_of_iff {spec inner : Specifier} (hspec : m.resolve spec = .ok part) :
    (∃ g, m.resolve (.of inner spec) = .ok g) ↔
      ∃ scope f, ofOwner (m.world.stack part.stack) (m.currentCardIn part.stack) part.found
          (.noSuchPart (inner.text m.world.describe)) = .ok scope ∧
        find (m.world.stack part.stack) m.world.describe (m.world.draws.skip spec.draws) scope
          inner = .ok f := by
  obtain ⟨number, hnumber, hspec⟩ := Failure.bind_eq_ok.1 hspec
  obtain ⟨found, hfound, hspec⟩ := Failure.bind_eq_ok.1 hspec
  cases hspec
  constructor
  · rintro ⟨g, hg⟩
    obtain ⟨number', hnumber', hg⟩ := Failure.bind_eq_ok.1 hg
    cases hnumber.symm.trans hnumber'
    obtain ⟨f, hf, -⟩ := Failure.bind_eq_ok.1 hg
    obtain ⟨found', scope, hfound', hscope, hf⟩ := find_of_eq_ok hf
    cases hfound.symm.trans hfound'
    exact ⟨scope, f, hscope, hf⟩
  · rintro ⟨scope, f, hscope, hf⟩
    refine ⟨⟨number, f⟩, Failure.bind_eq_ok.2 ⟨number, hnumber, Failure.bind_eq_ok.2 ⟨f, ?_, rfl⟩⟩⟩
    exact Failure.bind_eq_ok.2 ⟨found, hfound, Failure.bind_eq_ok.2 ⟨scope, hscope, hf⟩⟩

/-- Without an owner the numbers are those of the stack, seen from its current card. -/
theorem exists_resolve_number_iff {number : Nat} (hstack : m.currentStack = .ok number)
    (htype : type ≠ .stack) :
    (∃ g, m.resolve (.number layer type n) = .ok g) ↔
      1 ≤ n ∧ n ≤ (candidates (m.world.stack number) (.stack (m.currentCardIn number)) layer
        type).length := by
  have hfind : (∃ g, m.resolve (.number layer type n) = .ok g) ↔
      ∃ f, find (m.world.stack number) m.world.describe m.world.draws
        (.stack (m.currentCardIn number)) (.number layer type n) = .ok f := by
    constructor
    · rintro ⟨g, hg⟩
      obtain ⟨number', hnumber', hg⟩ := Failure.bind_eq_ok.1 hg
      cases hstack.symm.trans hnumber'
      obtain ⟨f, hf, -⟩ := Failure.bind_eq_ok.1 hg
      exact ⟨f, hf⟩
    · rintro ⟨f, hf⟩
      exact ⟨⟨number, f⟩,
        Failure.bind_eq_ok.2 ⟨number, hstack, Failure.bind_eq_ok.2 ⟨f, hf, rfl⟩⟩⟩
  exact hfind.trans (exists_find_number_iff htype)

end Machine

/-- Parts that are said to be of nothing are counted and numbered in the same place. -/
theorem exists_resolve_usual_iff (howner : usualOwner type m = .ok part m') {k : Nat}
    (h : (m'.world.stack part.stack).Counts type layer part.found.part k) :
    (∃ g, m'.resolve (.number layer type n) = .ok g) ↔ 1 ≤ n ∧ n ≤ k := by
  have hstack (h : (do return .ofStack (← Action.demand (·.currentStack)) : Action Handle) m =
      .ok part m') : ∃ number, m'.currentStack = .ok number ∧ part = .ofStack number := by
    obtain ⟨number, m₁, hdemand, hreturn⟩ := Action.bind_eq_ok h
    obtain ⟨hnumber, rfl⟩ := Action.demand_eq_ok hdemand
    cases hreturn
    exact ⟨number, hnumber, rfl⟩
  have hcard (h : Action.demand (·.currentCard) m = .ok part m') :
      ∃ number, m'.currentStack = .ok number ∧
        part = .ofCard number (m'.currentCardIn number) := by
    obtain ⟨hcard, rfl⟩ := Action.demand_eq_ok h
    obtain ⟨number, hnumber, hcard⟩ := Failure.bind_eq_ok.1 hcard
    cases hcard
    exact ⟨number, hnumber, rfl⟩
  have htype := h.ne_stack
  cases type with
  | card | background =>
    obtain ⟨number, hnumber, rfl⟩ := hstack howner
    cases h
    rw [Machine.exists_resolve_number_iff hnumber htype, Scope.candidates, Scope.stackCandidates,
      List.length_map]
    rfl
  | button | field =>
    obtain ⟨number, hnumber, rfl⟩ := hcard howner
    rw [Machine.exists_resolve_number_iff hnumber htype, Scope.candidates, Scope.stackCandidates]
    cases h with
    | onCard _ hc =>
      have hc : (m'.world.stack number).card? (m'.currentCardIn number) = some _ := hc
      rw [hc, Option.elim_some]
      rfl
  | stack => exact absurd rfl htype

/-! ## Stacks along a run -/

theorem World.stack_orderly {w : World} (h : ∀ s ∈ w.allStacks, s.Reachable) (number : Nat) :
    (w.stack number).Orderly := by
  rw [World.stack]
  cases hs : w.allStacks[number]? with
  | none => constructor <;> simp [Stack.ids]
  | some s => exact (h s (List.mem_of_getElem? hs)).coherent.toOrderly

theorem Machine.Course.all_reachable (h : Course e m m')
    (hm : ∀ s ∈ m.world.allStacks, s.Reachable) : ∀ s ∈ m'.world.allStacks, s.Reachable := by
  intro s hs
  obtain ⟨i, hi⟩ := List.mem_iff_getElem?.1 hs
  obtain ⟨hlt, -⟩ := List.getElem?_eq_some_iff.1 hi
  have hstack : m'.world.stack i = s := by rw [World.stack, hi, Option.getD_some]
  have hlt : i < m.world.allStacks.length := h.length_eq ▸ hlt
  rw [← hstack]
  refine h.reachable i ?_
  rw [World.stack, List.getElem?_eq_getElem hlt]
  exact hm _ (List.getElem_mem hlt)

/-- Whenever parts are counted, the numbers by which parts of that owner are addressed are those
from one to the count, unless the layer of the card was asked of a background. -/
theorem count_agrees_with_numbers (fuel : Nat) {owner : Option PartExpr}
    (hm : ∀ s ∈ m.world.allStacks, s.Reachable)
    (h : evalExpr (CardScript.invoke fuel) (.countParts type layer owner) m = .ok v m') :
    ∃ (part : Handle) (k : Nat),
      ownerOf (CardScript.invoke fuel) type owner m = .ok part m' ∧ v = .ofInt k ∧
      (∀ spec, m'.resolve spec = .ok part → ∀ n : Int,
        (∃ g, m'.resolve (.of (.number layer type n) spec) = .ok g) ↔
          1 ≤ n ∧ n ≤ k ∧ ¬type.Misplaced layer part.found.part) ∧
      (owner = none → ∀ n : Int,
        (∃ g, m'.resolve (.number layer type n) = .ok g) ↔ 1 ≤ n ∧ n ≤ k) := by
  have hcourse := evalExpr_follows (e := .inside) (invoke_follows fuel)
    (.countParts type layer owner) m
  rw [Action.after, h] at hcourse
  have horderly := World.stack_orderly (hcourse.all_reachable hm)
  rw [evalExpr_countParts] at h
  obtain ⟨part, m₁, howner, h⟩ := Action.bind_eq_ok h
  obtain ⟨rfl, k, hk, rfl⟩ := countParts_eq_ok h
  refine ⟨part, k, howner, rfl, fun spec hspec n => ?_, ?_⟩
  · rw [Machine.exists_resolve_of_iff hspec]
    exact (horderly part.stack).exists_numbered_iff hk
  · rintro rfl n
    exact exists_resolve_usual_iff howner hk

/-- A card on a background with a button. -/
def StackSnapshot.sharedButton : StackSnapshot where
  backgrounds := [{ buttons := [{ name := "ok" }] }]
  cards := [{}]

/-- The background has one button, which is the only one with a number. -/
theorem count_agrees_with_numbers_sharedButton :
    ∃ s : Stack, StackSnapshot.sharedButton.toStack = .ok s ∧
      let m : Machine := { world := { allStacks := [s] }, context := { stack := some 0 } }
      evalExpr (CardScript.invoke 8)
        (.countParts .button none (some (.named none .background (.literal "1" false)))) m =
          .ok (.ofInt 1) m ∧
      ∀ n : Int, (∃ g, m.resolve (.of (.number none .button n) (.number none .background 1)) =
        .ok g) ↔ 1 ≤ n ∧ n ≤ 1 := by
  obtain ⟨s, hs, hcount, howner, hspec⟩ :
      ∃ s : Stack, StackSnapshot.sharedButton.toStack = .ok s ∧
        let m : Machine := { world := { allStacks := [s] }, context := { stack := some 0 } }
        let first : PartExpr := .named none .background (.literal "1" false)
        evalExpr (CardScript.invoke 8) (.countParts .button none (some first)) m =
          .ok (.ofInt 1) m ∧
        ownerOf (CardScript.invoke 8) .button (some first) m =
          .ok ⟨0, ⟨.background 100, some 102⟩⟩ m ∧
        m.resolve (.number none .background 1) = .ok ⟨0, ⟨.background 100, some 102⟩⟩ :=
    ⟨_, rfl, rfl, rfl, rfl⟩
  have hreachable : ∀ t ∈ [s], t.Reachable := by
    intro t ht
    rw [List.mem_singleton.1 ht]
    exact ⟨.sharedButton, s, hs, .refl⟩
  refine ⟨s, hs, hcount, fun n => ?_⟩
  obtain ⟨part, k, hpart, hk, hnumbers, -⟩ := count_agrees_with_numbers 8 hreachable hcount
  cases howner.symm.trans hpart
  have hone : some (Numeric.whole 1) = some (.whole k) := congrArg Value.number hk
  cases hone
  rw [hnumbers _ hspec n]
  exact ⟨fun ⟨hone, hle, _⟩ => ⟨hone, hle⟩, fun ⟨hone, hle⟩ => ⟨hone, hle, fun h => nomatch h.2.1⟩⟩

/-- The layer is overlooked: one card button is counted on a background, where none is found. -/
theorem count_overlooks_layer :
    ∃ s : Stack, StackSnapshot.sharedButton.toStack = .ok s ∧
      let m : Machine := { world := { allStacks := [s] }, context := { stack := some 0 } }
      evalExpr (CardScript.invoke 8)
        (.countParts .button (some .card) (some (.named none .background (.literal "1" false)))) m =
          .ok (.ofInt 1) m ∧
      m.resolve (.number none .background 1) = .ok ⟨0, ⟨.background 100, some 102⟩⟩ ∧
      m.resolve (.of (.number (some .card) .button 1) (.number none .background 1)) =
        .error (.noSuchPart "card button 1") :=
  ⟨_, rfl, rfl, rfl, rfl⟩

end CardScript
