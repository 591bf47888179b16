import CardScript.Proofs.Part.Resolution

/-!
# Where addresses fail

An address that is not found says which of its segments is missing. The finders are given the
failure to report and report no other, as long as the card from which the stack is seen is there
(`Scope.find_plain_only`). An owner is found before what is looked for in it, and if it is not,
its failure is that of the whole address (`Scope.find_error_of_from?`), so there is one segment at
which an address breaks (`Scope.BreaksAt.unique`), and the failure names it
(`Scope.failure_names_segment`).
-/

namespace CardScript

/-! ## Segments -/

namespace Specifier

/-- The segments of an address, from what is looked for to its last owner. -/
def segments : Specifier → List Specifier
  | of part owner => part :: owner.segments
  | spec => [spec]

/-- The address from one of its segments on. -/
def from? : Specifier → Nat → Option Specifier
  | spec, 0 => some spec
  | of _ owner, i + 1 => owner.from? i
  | _, _ + 1 => none

/-- Neither made of other addresses nor known already. -/
def Plain : Specifier → Prop
  | of _ _ | resolved _ => False
  | id _ _ _ | name _ _ _ _ | number _ _ _ | ordinal _ _ _ | position _ _ | stack _ => True

variable {spec part : Specifier} {i j : Nat}

theorem from?_zero (spec : Specifier) : spec.from? 0 = some spec := by
  cases spec with
  | _ => rfl

theorem known_of_plain (h : ∀ segment ∈ spec.segments, segment.Plain) : spec.known = [] := by
  induction spec with
  | of part owner _ ih =>
    have hpart : part.known = [] := by
      have hplain := h part List.mem_cons_self
      cases part with
      | of | resolved => exact hplain.elim
      | _ => rfl
    rw [known, hpart, ih fun segment hmem => h segment (List.mem_cons_of_mem _ hmem),
      List.nil_append]
  | resolved handle => exact (h _ List.mem_cons_self).elim
  | _ => rfl

/-- An address from a later segment on is a rest of that from an earlier one on. -/
theorem from?_of_le (hij : i ≤ j) (h : spec.from? j = some part) :
    ∃ whole, spec.from? i = some whole ∧ whole.from? (j - i) = some part := by
  induction i generalizing spec j with
  | zero => exact ⟨spec, from?_zero spec, h⟩
  | succ i ih =>
    obtain ⟨j, rfl⟩ : ∃ k, j = k + 1 := ⟨j - 1, by omega⟩
    cases spec with
    | of inner owner =>
      obtain ⟨whole, hwhole, hpart⟩ := ih (by omega : i ≤ j) h
      exact ⟨whole, hwhole, by rwa [Nat.add_sub_add_right]⟩
    | _ => cases h

end Specifier

/-! ## The failures of the finders -/

/-- If this fails, then with the given failure. -/
def FailsOnlyWith {α : Type} (missing : Failure) (x : Except Failure α) : Prop :=
  ∀ e, x = .error e → e = missing

section

variable {α β : Type} {missing : Failure} {x : Except Failure α}

@[simp]
theorem failsOnlyWith_ok (a : α) : FailsOnlyWith missing (.ok a) :=
  nofun

@[simp]
theorem failsOnlyWith_pure (a : α) : FailsOnlyWith missing (pure a) :=
  nofun

@[simp]
theorem failsOnlyWith_error : FailsOnlyWith missing (.error missing : Except Failure α) := by
  rintro e ⟨⟩
  rfl

@[simp]
theorem failsOnlyWith_throw : FailsOnlyWith missing (throw missing : Except Failure α) :=
  failsOnlyWith_error

theorem FailsOnlyWith.bind {f : α → Except Failure β} (hx : FailsOnlyWith missing x)
    (hf : ∀ a, FailsOnlyWith missing (f a)) : FailsOnlyWith missing (x >>= f) := by
  intro e h
  obtain h | ⟨a, -, h⟩ := Failure.bind_eq_error.1 h
  · exact hx e h
  · exact hf a e h

end

namespace Scope

variable {s : Stack} {spec : Specifier} {scope : Scope} {draws : Draws} {missing e : Failure}
  {describe : Handle → String} {seenFrom : PartId} {kind : PartKind} {layer : Layer}
  {context : Option PartId} {b : Background} {c : Card}

theorem Valid.currentIndex_only (h : (stack seenFrom).Valid s) :
    FailsOnlyWith missing (currentIndex s seenFrom) := by
  obtain ⟨c, hc⟩ := Option.isSome_iff_exists.1 (Stack.isSome_card?.2 h)
  obtain ⟨i, hi⟩ := Stack.cardIndex?_of_card? hc
  simp only [currentIndex, hi, failsOnlyWith_ok]

theorem findPart_only {parts : List Part} :
    FailsOnlyWith missing (findPart draws parts kind layer context missing spec) := by
  unfold findPart
  split <;> simp

theorem findOnBackground_only :
    FailsOnlyWith missing (findOnBackground s draws b context missing spec) := by
  unfold findOnBackground
  split
  · split <;> simp
  · split
    · simp
    · exact findPart_only
  · simp

theorem findOnCard_only : FailsOnlyWith missing (findOnCard s draws c missing spec) := by
  unfold findOnCard
  split
  · split <;> simp
  · split
    · exact findPart_only
    · split
      · exact findOnBackground_only
      · simp

theorem findCard_only (hscope : (stack seenFrom).Valid s) :
    FailsOnlyWith missing (findCard s draws seenFrom missing spec) := by
  unfold findCard
  split
  · refine hscope.currentIndex_only.bind fun index => (failsOnlyWith_pure _).bind fun card? => ?_
    dsimp only
    split <;> simp
  · refine (failsOnlyWith_pure _).bind fun card? => ?_
    dsimp only
    split <;> simp

theorem findBackground_only (hscope : (stack seenFrom).Valid s) :
    FailsOnlyWith missing (findBackground s draws seenFrom missing spec) := by
  unfold findBackground
  split
  · refine hscope.currentIndex_only.bind fun index => ?_
    dsimp only
    split <;> simp
  · split <;> simp

theorem findInStack_only (hscope : (stack seenFrom).Valid s) :
    FailsOnlyWith missing (findInStack s draws seenFrom missing spec) := by
  unfold findInStack
  split
  · simp
  · exact findCard_only hscope
  · exact findBackground_only hscope
  all_goals
    refine hscope.currentIndex_only.bind fun index => ?_
    split
    · exact findOnCard_only
    · simp

theorem ofOwner_only {owner : Found} :
    FailsOnlyWith missing (ofOwner s seenFrom owner missing) := by
  unfold ofOwner
  split
  · simp
  · split <;> simp
  · split <;> simp
  · simp

/-- In every scope, what is missing is the segment that was looked for. -/
theorem find_plain_only (hscope : scope.Valid s) (hplain : spec.Plain) :
    FailsOnlyWith (.noSuchPart (spec.text describe)) (find s describe draws scope spec) := by
  cases spec with
  | of | resolved => exact hplain.elim
  | stack name => exact failsOnlyWith_ok _
  | _ =>
    cases scope with
    | stack seenFrom => exact findInStack_only hscope
    | card c => exact findOnCard_only
    | background b context => exact findOnBackground_only (s := s)

/-! ## The segment at which an address breaks -/

variable {part owner : Specifier} {i j : Nat}

/-- An address of an owner fails with the owner, or because the part is missing there. -/
theorem find_of_eq_error (hs : s.Orderly) (hscope : (stack seenFrom).Valid s)
    (hpart : part.Plain) (howner : ∀ segment ∈ owner.segments, segment.Plain)
    (h : find s describe draws (stack seenFrom) (.of part owner) = .error e) :
    find s describe draws (stack seenFrom) owner = .error e ∨
      (∃ f, find s describe draws (stack seenFrom) owner = .ok f) ∧
        e = .noSuchPart (part.text describe) := by
  obtain h | ⟨f, hf, h⟩ := Failure.bind_eq_error.1 h
  · exact .inl h
  refine .inr ⟨⟨f, hf⟩, ?_⟩
  obtain h | ⟨inner, hinner, h⟩ := Failure.bind_eq_error.1 h
  · exact ofOwner_only e h
  have hknown : ∀ g ∈ owner.known, s.Holds g := by
    rw [Specifier.known_of_plain howner]
    exact fun g hg => nomatch hg
  obtain ⟨hholds, -⟩ := find_holds hs hknown hscope hf
  obtain ⟨hvalid, -⟩ := ofOwner_eq_ok hholds hscope hinner
  exact find_plain_only hvalid hpart e h

/-- The failure of an owner is that of the whole address. -/
theorem find_error_of_from? (h : spec.from? i = some part)
    (hpart : find s describe draws (stack seenFrom) part = .error e) :
    find s describe draws (stack seenFrom) spec = .error e := by
  induction i generalizing spec with
  | zero =>
    rw [Specifier.from?_zero] at h
    cases h
    exact hpart
  | succ i ih =>
    cases spec with
    | of inner owner => exact Failure.bind_eq_error.2 (.inl (ih h))
    | _ => cases h

/-- From this segment on the address is not found, but from the next one on it is, unless this is
the last. -/
structure BreaksAt (s : Stack) (describe : Handle → String) (draws : Draws) (seenFrom : PartId)
    (spec : Specifier) (i : Nat) : Prop where
  fails : ∃ part e, spec.from? i = some part ∧
    find s describe draws (stack seenFrom) part = .error e
  rest : ∀ part, spec.from? (i + 1) = some part →
    ∃ f, find s describe draws (stack seenFrom) part = .ok f

theorem BreaksAt.not_lt (hi : BreaksAt s describe draws seenFrom spec i)
    (hj : BreaksAt s describe draws seenFrom spec j) : ¬i < j := by
  intro hlt
  obtain ⟨part, e, hpart, he⟩ := hj.fails
  obtain ⟨whole, hwhole, hrest⟩ := Specifier.from?_of_le (Nat.succ_le_of_lt hlt) hpart
  obtain ⟨f, hf⟩ := hi.rest whole hwhole
  rw [find_error_of_from? hrest he] at hf
  cases hf

theorem BreaksAt.unique (hi : BreaksAt s describe draws seenFrom spec i)
    (hj : BreaksAt s describe draws seenFrom spec j) : i = j := by
  have hle := hi.not_lt hj
  have hge := hj.not_lt hi
  omega

theorem exists_breaksAt (hs : s.Orderly) (hscope : (stack seenFrom).Valid s)
    (hplain : ∀ segment ∈ spec.segments, segment.Plain)
    (h : find s describe draws (stack seenFrom) spec = .error e) :
    ∃ i segment, spec.segments[i]? = some segment ∧ e = .noSuchPart (segment.text describe) ∧
      BreaksAt s describe draws seenFrom spec i := by
  induction spec with
  | of part owner _ ih =>
    have howner : ∀ segment ∈ owner.segments, segment.Plain :=
      fun segment hmem => hplain segment (List.mem_cons_of_mem _ hmem)
    rcases find_of_eq_error hs hscope (hplain part List.mem_cons_self) howner h with
      herror | ⟨hfound, he⟩
    · obtain ⟨i, segment, hsegment, he, hfails, hrest⟩ := ih howner herror
      exact ⟨i + 1, segment, hsegment, he, hfails, hrest⟩
    · refine ⟨0, part, rfl, he, ⟨_, e, rfl, h⟩, fun rest hrest => ?_⟩
      have hrest : owner.from? 0 = some rest := hrest
      rw [Specifier.from?_zero] at hrest
      cases hrest
      exact hfound
  | resolved handle => exact (hplain _ List.mem_cons_self).elim
  | _ =>
    have he := find_plain_only hscope (hplain _ List.mem_cons_self) e h
    exact ⟨0, _, rfl, he, ⟨_, e, rfl, h⟩, fun rest hrest => nomatch hrest⟩

/-- An address of plain segments that is not found in a reachable stack, seen from one of its cards,
breaks at one segment and no other, and the failure names that segment alone. -/
theorem failure_names_segment (hs : s.Reachable) (hcurrent : ∃ c ∈ s.cards, c.id = seenFrom)
    (hplain : ∀ segment ∈ spec.segments, segment.Plain)
    (h : find s describe draws (stack seenFrom) spec = .error e) :
    ∃ i segment, spec.segments[i]? = some segment ∧ e = .noSuchPart (segment.text describe) ∧
      ∀ j, BreaksAt s describe draws seenFrom spec j ↔ j = i := by
  obtain ⟨i, segment, hsegment, he, hbreaks⟩ :=
    exists_breaksAt hs.coherent.toOrderly hcurrent hplain h
  refine ⟨i, segment, hsegment, he, fun j => ⟨fun hj => hj.unique hbreaks, ?_⟩⟩
  rintro rfl
  exact hbreaks

/-- There is no ninth card, so nothing of it is found either. -/
theorem failure_names_segment_ninthCard :
    ∃ s : Stack, s.Reachable ∧
      let spec : Specifier := .of (.name none .button "ok" true)
        (.of (.number none .card 9) (.number none .background 1))
      find s (fun _ => "") {} (stack 103) spec = .error (.noSuchPart "card 9") ∧
      BreaksAt s (fun _ => "") {} 103 spec 1 ∧
      ∀ j, BreaksAt s (fun _ => "") {} 103 spec j → j = 1 := by
  obtain ⟨s, hs, hcards, hfind, hcard, hrest⟩ :
      ∃ s : Stack, s.Reachable ∧ (∃ c ∈ s.cards, c.id = 103) ∧
        find s (fun _ => "") {} (stack 103) (.of (.name none .button "ok" true)
          (.of (.number none .card 9) (.number none .background 1))) =
            .error (.noSuchPart "card 9") ∧
        find s (fun _ => "") {} (stack 103)
          (.of (.number none .card 9) (.number none .background 1)) =
            .error (.noSuchPart "card 9") ∧
        find s (fun _ => "") {} (stack 103) (.number none .background 1) =
          .ok ⟨.background 100, some 103⟩ :=
    ⟨_, ⟨.twoCards, _, rfl, .refl⟩, ⟨_, .head _, rfl⟩, rfl, rfl, rfl⟩
  have hbreaks : BreaksAt s (fun _ => "") {} 103 (.of (.name none .button "ok" true)
      (.of (.number none .card 9) (.number none .background 1))) 1 := by
    refine ⟨⟨_, _, rfl, hcard⟩, ?_⟩
    rintro part ⟨⟩
    exact ⟨_, hrest⟩
  obtain ⟨i, segment, -, -, honly⟩ :=
    failure_names_segment hs hcards (by simp [Specifier.segments, Specifier.Plain]) hfind
  have hi := (honly 1).1 hbreaks
  refine ⟨s, hs, hfind, hbreaks, fun j hj => ?_⟩
  rw [hi]
  exact (honly j).1 hj

end Scope

end CardScript
