import CardScript.Proofs.Part.Numbering
import CardScript.Proofs.Script.Course

/-!
# Addresses in scripts

What a script calls a part by, a name or a number, is settled by the quotes around it, and the two
are never mixed up: a name in quotes finds the first part that is called so, and a number the part
at that place, whatever parts are called (`named_part_found`).

The stack in which an address is looked up is settled by its last owner alone
(`Machine.stackFor_outermost`), and a part that an address starts from is found as it is, whatever
its owners (`Scope.find_innermost`). So an address keeps to the stack and the part it names, with
two exceptions: a stack is overlooked if it is named the way other parts are, and a known part is
taken for one of another stack if it is said to be of that stack (`Machine.resolve_keeps_iff`).
-/

namespace CardScript

/-! ## Names and numbers -/

namespace Candidate

/-- The candidate has this name, in any ASCII letter case. Nameless candidates have none. -/
def Called (c : Candidate) (name : String) : Prop :=
  c.name ≠ "" ∧ Text.sameIgnoringAsciiCase c.name name

/-- The first of some candidates that has a name. -/
def FirstCalled (items : List Candidate) (name : String) (c : Candidate) : Prop :=
  ∃ i, items[i]? = some c ∧ c.Called name ∧
    ∀ (j : Nat) d, j < i → items[j]? = some d → ¬d.Called name

theorem called_iff {c : Candidate} {name : String} :
    (!c.name.isEmpty && Text.sameIgnoringAsciiCase c.name name) = true ↔ c.Called name := by
  simp [Called]

end Candidate

namespace Scope

open Finding

variable {s : Stack} {scope : Scope} {layer : Option Layer} {type : PartType} {f : Found}
  {describe : Handle → String} {draws : Draws} {items : List Candidate} {name : String}
  {c : Candidate}

theorem named?_eq_some_iff :
    named? items (·.name) name = some c ↔ Candidate.FirstCalled items name c := by
  rw [named?, find?_eq_some_iff]
  simp only [← Bool.not_eq_true, Candidate.called_iff]
  rfl

/-- Some candidate is the first of a name if any has it. -/
theorem exists_firstCalled_iff :
    (∃ c, Candidate.FirstCalled items name c) ↔ ∃ c ∈ items, c.Called name := by
  constructor
  · rintro ⟨c, i, hi, hcalled, -⟩
    exact ⟨c, List.mem_of_getElem? hi, hcalled⟩
  · rintro ⟨c, hc, hcalled⟩
    have hsome : (named? items (·.name) name).isSome :=
      List.find?_isSome.2 ⟨c, hc, Candidate.called_iff.2 hcalled⟩
    obtain ⟨d, hd⟩ := Option.isSome_iff_exists.1 hsome
    exact ⟨d, named?_eq_some_iff.1 hd⟩

/-- A name in quotes finds the first candidate that is called so. -/
theorem find_quoted_eq_ok_iff (htype : type ≠ .stack) :
    find s describe draws scope (.name layer type name true) = .ok f ↔
      ∃ c, Candidate.FirstCalled (candidates s scope layer type) name c ∧ c.found = f := by
  have hselect : select? draws (candidates s scope layer type) (·.id) (·.name)
      (.name layer type name true) = named? (candidates s scope layer type) (·.name) name := by
    rw [select?]
    cases named? (candidates s scope layer type) (·.name) name with
    | some c => rfl
    | none => rfl
  rw [find_eq_ok_iff .name htype, pick?, Option.map_eq_some_iff]
  simp only [← named?_eq_some_iff, ← hselect]
  rfl

theorem exists_find_quoted_iff (htype : type ≠ .stack) :
    (∃ f, find s describe draws scope (.name layer type name true) = .ok f) ↔
      ∃ c ∈ candidates s scope layer type, c.Called name := by
  rw [← exists_firstCalled_iff]
  constructor
  · rintro ⟨f, hf⟩
    obtain ⟨c, hc, -⟩ := (find_quoted_eq_ok_iff htype).1 hf
    exact ⟨c, hc⟩
  · rintro ⟨c, hc⟩
    exact ⟨c.found, (find_quoted_eq_ok_iff htype).2 ⟨c, hc, rfl⟩⟩

end Scope

section

open Scope

variable {invoke : Invoke} {name : Expr} {m m' : Machine} {v : Value} {layer : Option Layer}
  {type : PartType}

theorem evalPart_named (h : evalExpr invoke name m = .ok v m') :
    evalPart invoke (.named layer type name) m = .ok (namedSpecifier layer type v) m' := by
  rw [evalPart, Action.bind_apply_ok h]
  rfl

/-- The address of a part that is called by a value. In every scope of every stack, a value in
quotes is a name: something is found exactly if some candidate has that name, and it is the first
such candidate. Any other value that reads as a whole number is a number: something is found
exactly if there are so many candidates, and it is the one at that place. -/
theorem named_part_found (h : evalExpr invoke name m = .ok v m') (layer : Option Layer)
    (htype : type ≠ .stack) :
    ∃ spec, evalPart invoke (.named layer type name) m = .ok spec m' ∧
      ∀ (s : Stack) (scope : Scope) (describe : Handle → String) (draws : Draws),
        (v.quoted = true →
          ((∃ f, find s describe draws scope spec = .ok f) ↔
            ∃ c ∈ candidates s scope layer type, c.Called v.text) ∧
          ∀ f, find s describe draws scope spec = .ok f ↔
            ∃ c, Candidate.FirstCalled (candidates s scope layer type) v.text c ∧ c.found = f) ∧
        ∀ n, v.quoted = false → v.whole? = some n →
          ((∃ f, find s describe draws scope spec = .ok f) ↔
            1 ≤ n ∧ n ≤ (candidates s scope layer type).length) ∧
          ∀ f, find s describe draws scope spec = .ok f ↔
            ∃ (i : Nat) (c : Candidate), (candidates s scope layer type)[i]? = some c ∧
              n = i + 1 ∧ c.found = f := by
  refine ⟨_, evalPart_named h, fun s scope describe draws => ⟨fun hquoted => ?_, ?_⟩⟩
  · have hspec : namedSpecifier layer type v = .name layer type v.text true := by
      rw [namedSpecifier, hquoted]
    rw [hspec]
    exact ⟨exists_find_quoted_iff htype, fun f => find_quoted_eq_ok_iff htype⟩
  · intro n hquoted hwhole
    have hspec : namedSpecifier layer type v = .number layer type n := by
      rw [namedSpecifier, hquoted, hwhole]
    rw [hspec]
    exact ⟨exists_find_number_iff htype, fun f => find_number_eq_ok_iff htype⟩

end

/-- A card with two buttons, of which the second is called by a number. -/
def StackSnapshot.numberedButton : StackSnapshot where
  cards := [{ buttons := [{ name := "OK" }, { name := "1" }] }]

/-- In quotes the number is a name and finds the second button; without them it is a place and finds
the first. -/
theorem named_part_found_numberedButton :
    ∃ s : Stack, StackSnapshot.numberedButton.toStack = .ok s ∧
      let m : Machine := { world := { allStacks := [s] }, context := { stack := some 0 } }
      (∃ spec, evalPart (CardScript.invoke 0) (.named none .button (.literal "1" true)) m =
        .ok spec m ∧ Scope.find s (fun _ => "") {} (.stack 101) spec =
          .ok ⟨.part .button .card 103, some 101⟩) ∧
      ∃ spec, evalPart (CardScript.invoke 0) (.named none .button (.literal "1" false)) m =
        .ok spec m ∧ Scope.find s (fun _ => "") {} (.stack 101) spec =
          .ok ⟨.part .button .card 102, some 101⟩ := by
  obtain ⟨s, hs, ok, one, hitems, hok, hone, hokFound, honeFound⟩ :
      ∃ s : Stack, StackSnapshot.numberedButton.toStack = .ok s ∧ ∃ ok one : Candidate,
        Scope.candidates s (.stack 101) none .button = [ok, one] ∧ ok.name = "OK" ∧
        one.name = "1" ∧ ok.found = ⟨.part .button .card 102, some 101⟩ ∧
        one.found = ⟨.part .button .card 103, some 101⟩ :=
    ⟨_, rfl, _, _, rfl, rfl, rfl, rfl, rfl⟩
  have hfirst : Candidate.FirstCalled [ok, one] "1" one := by
    refine ⟨1, rfl, ⟨by rw [hone]; decide, by rw [hone]; decide⟩, fun j d hj hd hcalled => ?_⟩
    obtain rfl : j = 0 := by omega
    cases hd
    rw [Candidate.Called, hok] at hcalled
    exact absurd hcalled.2 (by decide)
  have htype : PartType.button ≠ .stack := nofun
  refine ⟨s, hs, ?_, ?_⟩
  · obtain ⟨spec, hspec, hfind⟩ := named_part_found
      (rfl : evalExpr (CardScript.invoke 0) (.literal "1" true) _ = .ok (.ofQuoted "1") _) none
      htype
    obtain ⟨hquoted, -⟩ := hfind s (.stack 101) (fun _ => "") {}
    refine ⟨spec, hspec, ((hquoted rfl).2 _).2 ⟨one, ?_, honeFound⟩⟩
    rw [hitems]
    exact hfirst
  · obtain ⟨spec, hspec, hfind⟩ := named_part_found
      (rfl : evalExpr (CardScript.invoke 0) (.literal "1" false) _ = .ok (.ofText "1") _) none htype
    obtain ⟨-, hbare⟩ := hfind s (.stack 101) (fun _ => "") {}
    refine ⟨spec, hspec, ((hbare 1 rfl rfl).2 _).2 ⟨0, ok, ?_, rfl, hokFound⟩⟩
    rw [hitems]
    rfl

/-! ## Stacks -/

namespace Specifier

/-- The last owner of an address. -/
def outermost : Specifier → Specifier
  | of _ owner => owner.outermost
  | spec => spec

/-- What an address starts from. -/
def innermost : Specifier → Specifier
  | of part _ => part.innermost
  | spec => spec

/-- The name of the stack that an address names as its last owner. -/
def stackName? (spec : Specifier) : Option String :=
  match spec.outermost with
  | .stack called => called
  | .name _ .stack called _ => some called
  | _ => none

end Specifier

theorem Scope.find_innermost {s : Stack} {describe : Handle → String} {draws : Draws}
    {scope : Scope} {spec : Specifier} {f : Found} {known : Handle}
    (h : find s describe draws scope spec = .ok f) (hknown : spec.innermost = .resolved known) :
    f = known.found := by
  induction spec generalizing scope draws with
  | of part owner ih _ =>
    obtain ⟨_, _, h⟩ := Failure.bind_eq_ok.1 h
    obtain ⟨_, _, h⟩ := Failure.bind_eq_ok.1 h
    exact ih h hknown
  | resolved handle =>
    cases hknown
    cases h
    rfl
  | _ => cases hknown

namespace Machine

variable {m : Machine} {spec : Specifier} {part : Handle} {name : String} {number : Nat}

theorem stackFor_outermost (m : Machine) (spec : Specifier) :
    m.stackFor spec.outermost = m.stackFor spec := by
  induction spec with
  | of inner owner _ ih => exact ih
  | _ => rfl

theorem stackNamed?_eq_some (h : m.stackNamed? name = some number) :
    Text.sameIgnoringAsciiCase (m.world.stack number).name name := by
  have hopen (h : m.world.openStackNamed? name = some number) :
      Text.sameIgnoringAsciiCase (m.world.stack number).name name := (List.find?_some h :)
  unfold stackNamed? at h
  split at h
  · split at h
    next hname =>
      cases h
      exact hname
    next => exact hopen h
  · exact hopen h

theorem stackFor_eq_ok (h : m.stackFor (.stack (some name)) = .ok number) :
    Text.sameIgnoringAsciiCase (m.world.stack number).name name := by
  rw [stackFor] at h
  split at h
  next hnumber =>
    cases h
    exact stackNamed?_eq_some hnumber
  next => cases h

/-- The address is resolved to what it names: if it names a stack, to a part of a stack of that
name, and if it starts from a known part, to that part. -/
structure Keeps (m : Machine) (spec : Specifier) (part : Handle) : Prop where
  stack : ∀ name, spec.stackName? = some name →
    Text.sameIgnoringAsciiCase (m.world.stack part.stack).name name
  part : ∀ known, spec.innermost = .resolved known → part.samePart known

/-- A resolved address keeps to what it names, unless it names its stack the way other parts are
named and that is not the current stack, or it starts from a known part and its last owner is in
another stack. -/
theorem resolve_keeps_iff (h : m.resolve spec = .ok part) :
    m.Keeps spec part ↔
      (∀ layer name literal, spec.outermost = .name layer .stack name literal →
        ∀ number, m.currentStack = .ok number →
          Text.sameIgnoringAsciiCase (m.world.stack number).name name) ∧
      ∀ known, spec.innermost = .resolved known →
        m.stackFor spec.outermost = .ok known.stack := by
  obtain ⟨number, hstack, h⟩ := Failure.bind_eq_ok.1 h
  obtain ⟨found, hfind, h⟩ := Failure.bind_eq_ok.1 h
  cases h
  rw [← stackFor_outermost] at hstack
  constructor
  · rintro ⟨hname, hpart⟩
    refine ⟨fun layer name literal houter current hcurrent => ?_, fun known hknown => ?_⟩
    · rw [houter] at hstack
      cases hstack.symm.trans hcurrent
      exact hname name (by rw [Specifier.stackName?, houter])
    · have hsame := hpart known hknown
      rw [Handle.samePart, Bool.and_eq_true] at hsame
      have hnumber : number = known.stack := eq_of_beq hsame.1
      rw [hstack, hnumber]
  · rintro ⟨hcurrent, hknown⟩
    refine ⟨fun name hname => ?_, fun known hinner => ?_⟩
    · unfold Specifier.stackName? at hname
      split at hname
      next houter =>
        rw [houter, hname] at hstack
        exact stackFor_eq_ok hstack
      next houter =>
        cases hname
        refine hcurrent _ _ _ houter number ?_
        rwa [houter] at hstack
      next => cases hname
    · have hsame : number = known.stack := by
        rw [hknown known hinner] at hstack
        cases hstack
        rfl
      simp [Handle.samePart, hsame, Scope.find_innermost hfind hinner]

end Machine

/-- A card with one button. -/
def StackSnapshot.oneButton (name button : String) : StackSnapshot where
  name := name
  cards := [{ buttons := [{ name := button }] }]

/-- A run that works on the first of two open stacks. -/
def Machine.amongTwo (s t : Stack) : Machine where
  world := { allStacks := [s, t], desktop := { opened := [0, 1], focused := some 0 } }
  context := { stack := some 0 }

/-- A known button of the other stack is found there. -/
theorem Machine.resolve_keeps_iff_otherStack :
    ∃ s t : Stack, (StackSnapshot.oneButton "Home" "ok").toStack = .ok s ∧
      (StackSnapshot.oneButton "Other" "cancel").toStack = .ok t ∧
      let cancel : Handle := ⟨1, ⟨.part .button .card 102, some 101⟩⟩
      let spec : Specifier := .of (.resolved cancel) (.stack (some "other"))
      (amongTwo s t).resolve spec = .ok cancel ∧ (amongTwo s t).Keeps spec cancel := by
  obtain ⟨s, t, hs, ht, hresolve, hstack⟩ :
      ∃ s t : Stack, (StackSnapshot.oneButton "Home" "ok").toStack = .ok s ∧
        (StackSnapshot.oneButton "Other" "cancel").toStack = .ok t ∧
        let cancel : Handle := ⟨1, ⟨.part .button .card 102, some 101⟩⟩
        (amongTwo s t).resolve (.of (.resolved cancel) (.stack (some "other"))) = .ok cancel ∧
        (amongTwo s t).stackFor (.stack (some "other")) = .ok 1 :=
    ⟨_, _, rfl, rfl, rfl, rfl⟩
  refine ⟨s, t, hs, ht, hresolve, (resolve_keeps_iff hresolve).2 ⟨nofun, ?_⟩⟩
  rintro known ⟨⟩
  exact hstack

/-- The name of the other stack is overlooked, and a known button of this stack is taken for one of
the other, which happens to have the same identifier. -/
theorem Machine.resolve_strays :
    ∃ s t : Stack, (StackSnapshot.oneButton "Home" "ok").toStack = .ok s ∧
      (StackSnapshot.oneButton "Other" "cancel").toStack = .ok t ∧
      let ok : Handle := ⟨0, ⟨.part .button .card 102, some 101⟩⟩
      let cancel : Handle := ⟨1, ⟨.part .button .card 102, some 101⟩⟩
      let named : Specifier := .of (.number none .button 1) (.name none .stack "Other" true)
      let known : Specifier := .of (.resolved ok) (.stack (some "Other"))
      (amongTwo s t).resolve named = .ok ok ∧ ¬(amongTwo s t).Keeps named ok ∧
      (amongTwo s t).resolve known = .ok cancel ∧ ¬(amongTwo s t).Keeps known cancel := by
  obtain ⟨s, t, hs, ht, hname, hnamed, hknown⟩ :
      ∃ s t : Stack, (StackSnapshot.oneButton "Home" "ok").toStack = .ok s ∧
        (StackSnapshot.oneButton "Other" "cancel").toStack = .ok t ∧ s.name = "Home" ∧
        (amongTwo s t).resolve (.of (.number none .button 1) (.name none .stack "Other" true)) =
          .ok ⟨0, ⟨.part .button .card 102, some 101⟩⟩ ∧
        (amongTwo s t).resolve (.of (.resolved ⟨0, ⟨.part .button .card 102, some 101⟩⟩)
          (.stack (some "Other"))) = .ok ⟨1, ⟨.part .button .card 102, some 101⟩⟩ :=
    ⟨_, _, rfl, rfl, rfl, rfl, rfl⟩
  refine ⟨s, t, hs, ht, hnamed, fun hkeeps => ?_, hknown, fun hkeeps => ?_⟩
  · have hother : Text.sameIgnoringAsciiCase s.name "Other" := hkeeps.stack "Other" rfl
    rw [hname] at hother
    exact absurd hother (by decide)
  · exact absurd (hkeeps.part _ rfl) (by decide)

end CardScript
