import CardScript.Proofs.Script.Course

/-!
# The stacks a run can come to

A run comes to a stack only through what its machine refers to: the open stacks and the places
visited, the stack it is bound to, its target and the parts its handlers belong to. If all of these
are among some stacks `R`, so is every stack that an address leads to (`Machine.Within.resolve`),
that a message goes to or that one goes back to.
-/

namespace CardScript

variable {R : Nat → Prop}

/-! ## The desktop -/

/-- All stacks on a desktop, and those of all places visited, are among `R`. -/
structure Desktop.Within (R : Nat → Prop) (d : Desktop) : Prop where
  opened : ∀ n ∈ d.opened, R n
  location : ∀ place ∈ d.location, R place.stack
  history : ∀ place ∈ d.history, R place.stack

namespace Desktop.Within

variable {d : Desktop}

theorem focus (h : d.Within R) (hstack : R stack) : ∀ n ∈ (d.focus stack).opened, R n := by
  unfold Desktop.focus
  split
  · exact h.opened
  · intro n hn
    rcases List.mem_append.1 hn with hn | hn
    · exact h.opened n hn
    · rw [List.mem_singleton.1 hn]
      exact hstack

theorem openStack (h : d.Within R) (hstack : R stack) (card : PartId) :
    (d.openStack stack card).Within R where
  opened := h.focus hstack
  location place hplace := by
    cases hplace
    exact hstack
  history := by
    unfold Desktop.openStack Desktop.focus
    split <;> exact h.history

theorem navigate (h : d.Within R) (hstack : R destination.stack) :
    (d.navigate destination).Within R where
  opened := h.focus hstack
  location place hplace := by
    cases hplace
    exact hstack
  history place hplace := by
    simp only [Desktop.navigate] at hplace
    split at hplace
    next previous hprevious =>
      rcases List.mem_cons.1 hplace with rfl | hplace
      · exact h.location _ hprevious
      · exact h.history _ hplace
    next => exact h.history _ hplace

theorem goBack (h : d.Within R) :
    (∀ place ∈ d.goBack.1, R place.stack) ∧ d.goBack.2.Within R := by
  unfold Desktop.goBack
  split
  · exact ⟨nofun, h⟩
  next previous rest hhistory =>
    have hstack : R previous.stack := h.history previous (hhistory ▸ List.mem_cons_self)
    refine ⟨fun place hplace => ?_, h.focus hstack, fun place hplace => ?_, fun place hplace => ?_⟩
    · cases hplace
      exact hstack
    · cases hplace
      exact hstack
    · exact h.history place (hhistory ▸ List.mem_cons_of_mem _ hplace)

theorem focusedStack? (h : d.Within R) (hfocused : d.focusedStack? = some n) : R n := by
  obtain ⟨i, -, hi⟩ := Option.bind_eq_some_iff.1 hfocused
  exact h.opened n (List.mem_of_getElem? hi)

end Desktop.Within

/-! ## The machine -/

/-- The stack a context is bound to, and those of its target and of its handlers, are among `R`. -/
structure Context.Within (R : Nat → Prop) (c : Context) : Prop where
  stack : ∀ n ∈ c.stack, R n
  target : ∀ h ∈ c.target, R h.stack
  frames : ∀ f ∈ c.frames.toList, ∀ h ∈ f.me, R h.stack

/-- All stacks that a machine refers to are among `R`. -/
structure Machine.Within (R : Nat → Prop) (m : Machine) : Prop where
  desktop : m.world.desktop.Within R
  context : m.context.Within R

/-- The stack of the known part that an address starts from. -/
def Specifier.anchor? : Specifier → Option Nat
  | .of _ owner => owner.anchor?
  | .resolved h => some h.stack
  | _ => none

/-- An address that does not start from a part outside `R`. -/
def Specifier.Within (R : Nat → Prop) (spec : Specifier) : Prop :=
  ∀ n ∈ spec.anchor?, R n

theorem Specifier.Within.unanchored {spec : Specifier} (h : spec.anchor? = none) :
    spec.Within R := by
  intro n hn
  rw [h] at hn
  cases hn

theorem anchor?_namedSpecifier (layer : Option Layer) (type : PartType) (v : Value) :
    (namedSpecifier layer type v).anchor? = none := by
  unfold namedSpecifier
  split <;> rfl

theorem anchor?_idSpecifier (h : idSpecifier layer type v = .ok spec) : spec.anchor? = none := by
  unfold idSpecifier at h
  split at h
  · split at h
    · cases h
      rfl
    · cases h
  · cases h

namespace Machine.Within

variable {m : Machine}

theorem currentStack (hm : m.Within R) (h : m.currentStack = .ok n) : R n := by
  unfold Machine.currentStack at h
  split at h
  next number hnumber =>
    cases h
    rcases Option.or_eq_some_iff.1 hnumber with hstack | ⟨-, hfocused⟩
    · exact hm.context.stack _ hstack
    · exact hm.desktop.focusedStack? hfocused
  next => cases h

theorem currentCard (hm : m.Within R) (h : m.currentCard = .ok handle) : R handle.stack := by
  obtain ⟨n, hn, h⟩ := Failure.bind_eq_ok.1 h
  cases h
  exact hm.currentStack hn

theorem me? (hm : m.Within R) (h : m.me? = some handle) : R handle.stack := by
  obtain ⟨f, hf, hme⟩ := Option.bind_eq_some_iff.1 h
  exact hm.context.frames f (List.mem_of_mem_head? hf) handle hme

theorem stackNamed? (hm : m.Within R) (h : m.stackNamed? name = some n) : R n := by
  have hopen (h : m.world.openStackNamed? name = some n) : R n :=
    hm.desktop.opened n (List.mem_of_find?_eq_some h)
  unfold Machine.stackNamed? at h
  split at h
  next number hnumber =>
    split at h
    · cases h
      exact hm.currentStack hnumber
    · exact hopen h
  next => exact hopen h

theorem stackFor (hm : m.Within R) (hspec : spec.Within R) (h : m.stackFor spec = .ok n) :
    R n := by
  induction spec with
  | of part owner _ ih => exact ih hspec h
  | resolved handle =>
    cases h
    exact hspec _ rfl
  | stack name =>
    cases name with
    | none => exact hm.currentStack h
    | some name =>
      simp only [Machine.stackFor] at h
      split at h
      next number hnumber =>
        cases h
        exact hm.stackNamed? hnumber
      next => cases h
  | _ => exact hm.currentStack h

theorem resolve (hm : m.Within R) (hspec : spec.Within R) (h : m.resolve spec = .ok handle) :
    R handle.stack := by
  obtain ⟨n, hn, h⟩ := Failure.bind_eq_ok.1 h
  obtain ⟨found, -, h⟩ := Failure.bind_eq_ok.1 h
  cases h
  exact hm.stackFor hspec hn

theorem locate (hm : m.Within R) (hspec : spec.Within R)
    (h : CardScript.locate m spec = .ok place) : R place.1 := by
  unfold CardScript.locate at h
  split at h
  · cases h
  next n hn =>
    split at h
    · cases h
      exact hm.stackFor hspec hn
    split at h
    · cases h
    next handle hhandle =>
      have hstack := hm.resolve hspec hhandle
      split at h
      · cases h
        exact hstack
      · cases h
        exact hstack
      · cases h
      · cases h
        exact hstack
      · cases h

end Machine.Within

/-- The next part on the way of a message is in the same stack. -/
theorem World.stack_parent? {w : World} (h : w.parent? handle = some next) :
    next.stack = handle.stack := by
  obtain ⟨found, -, rfl⟩ := Option.map_eq_some_iff.1 h
  rfl

end CardScript
