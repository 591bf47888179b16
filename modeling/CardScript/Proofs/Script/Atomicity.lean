import CardScript.Proofs.Stack.Atomicity
import CardScript.Script.Run

/-!
# Edits of a machine that fail

Setting a variable, changing or beginning a frame and writing to an address change nothing if they
fail: all checks come before the first change. Each is carried out as what it comes to, at one
stroke (`Action.edit_eq_change`).
-/

namespace CardScript

open Editing

namespace World

theorem settingProperty_atomic (name : String) (value : Value) :
    Atomic (settingProperty name value) := by
  unfold settingProperty
  split
  · exact (throw_reads _).atomic
  split
  · exact (throw_reads _).atomic
  · exact (demand_reads _).bind_atomic fun _ => (modify_total _).atomic

theorem setProperty_eq (w : World) (name : String) (value : Value) :
    w.setProperty name value =
      if Text.sameIgnoringAsciiCase name "selectedText" then .error (.semantic (.cannotSet name))
      else if Text.sameIgnoringAsciiCase name "itemDelimiter" && value.isEmpty then
        .error (.semantic .emptyItemDelimiter)
      else do return { w with properties := ← w.properties.set name value } := by
  unfold setProperty settingProperty
  split
  · rfl
  split
  · rfl
  rw [result_demand_bind]
  unfold PropertyTable.set
  cases w.properties.checkSet name with
  | ok | error => rfl

theorem withStack_stack (w : World) (number : Nat) : w.withStack number (w.stack number) = w := by
  unfold withStack stack
  cases hget : w.allStacks[number]? with
  | none => rw [List.set_eq_of_length_le (List.getElem?_eq_none_iff.1 hget)]
  | some s =>
    obtain ⟨hlt, rfl⟩ := List.getElem?_eq_some_iff.1 hget
    rw [Option.getD_some, List.set_getElem_self]

end World

namespace Machine

variable {α : Type} {m m' : Machine}

theorem onWorld_atomic {x : Editing World α} (hx : Atomic x) : Atomic (onWorld x) :=
  hx.within fun _ => rfl

theorem onStack_atomic {x : Editing Stack α} (hx : Atomic x) (number : Nat) :
    Atomic (onStack number x) :=
  onWorld_atomic (hx.within fun w => w.withStack_stack number)

theorem onStack_apply (number : Nat) (x : Editing Stack α) (m : Machine) :
    onStack number x m =
      match x (m.world.stack number) with
      | .ok a s => .ok a { m with world := m.world.withStack number s }
      | .error f s => .error f { m with world := m.world.withStack number s } := by
  unfold onStack onWorld Editing.within
  cases x (m.world.stack number) with
  | ok | error => rfl

theorem onWorld_result (x : Editing World Unit) (m : Machine) :
    (onWorld x).result m = do return { m with world := ← x.result m.world } :=
  result_within ..

theorem onStack_result (number : Nat) (x : Editing Stack Unit) (m : Machine) :
    (onStack number x).result m = do
      return { m with world := m.world.withStack number (← x.result (m.world.stack number)) } := by
  rw [onStack, onWorld_result, result_within]
  cases x.result (m.world.stack number) with
  | ok | error => rfl

/-! ## Frames -/

theorem modifyingFrame_atomic (change : Frame → Frame) : Atomic (modifyingFrame change) :=
  (demand_reads _).bind_atomic fun _ => (modify_total _).atomic

theorem modifyFrame_eq (m : Machine) (change : Frame → Frame) :
    m.modifyFrame change =
      m.frame?.elim (.error (.internal .noFrame)) fun _ => .ok (m.onTop change) := by
  rw [modifyFrame, modifyingFrame, result_demand_bind, frame]
  cases m.frame? with
  | none | some f => rfl

theorem modifyFrame_eq_ok (h : m.modifyFrame change = .ok m') : m' = m.onTop change := by
  rw [modifyFrame_eq] at h
  cases hframe : m.frame? with
  | none =>
    rw [hframe] at h
    cases h
  | some f =>
    rw [hframe] at h
    exact (Except.ok.inj h).symm

theorem stamping_total : Total stamping :=
  modifyGet_total _

theorem pushingFrame_atomic (message : String) (me : Option Handle) (args : List Value) :
    Atomic (pushingFrame message me args) :=
  (demand_reads _).bind_atomic fun _ =>
    (stamping_total.bind fun _ => modify_total _).atomic

theorem pushingFrame_apply (m : Machine) (message : String) (me : Option Handle)
    (args : List Value) :
    pushingFrame message me args m =
      if m.world.settings.maxCallDepth ≤ m.depth then .error (.semantic .tooMuchRecursion) m
      else
        .ok ()
          { world := { m.world with interrupt := m.world.interrupt.stamp.2 }
            context := { m.context with
              frames := m.context.frames.push
                { message, me, args, begunAt := m.world.interrupt.stamp.1 } } } := by
  by_cases hdeep : m.world.settings.maxCallDepth ≤ m.depth
  · have hcheck : m.checkDepth = .error (.semantic .tooMuchRecursion) := if_pos hdeep
    exact (bind_error (demand_of_error hcheck)).trans (if_pos hdeep).symm
  · have hcheck : m.checkDepth = .ok () := if_neg hdeep
    exact (bind_ok (demand_of_ok hcheck)).trans (if_neg hdeep).symm

theorem pushFrame_eq (m : Machine) (message : String) (me : Option Handle) (args : List Value) :
    m.pushFrame message me args =
      if m.world.settings.maxCallDepth ≤ m.depth then .error (.semantic .tooMuchRecursion)
      else
        .ok
          { world := { m.world with interrupt := m.world.interrupt.stamp.2 }
            context := { m.context with
              frames := m.context.frames.push
                { message, me, args, begunAt := m.world.interrupt.stamp.1 } } } := by
  rw [pushFrame, Editing.result, pushingFrame_apply]
  by_cases hdeep : m.world.settings.maxCallDepth ≤ m.depth
  · rw [if_pos hdeep, if_pos hdeep]
  · rw [if_neg hdeep, if_neg hdeep]

/-! ## Variables -/

theorem settingVariable_atomic (name : Symbol) (value : Value) :
    Atomic (settingVariable name value) := by
  refine (demand_reads _).bind_atomic fun f => ?_
  split
  · exact (modify_total _).atomic
  · exact (modify_total _).atomic

/-- A variable is set in the table of globals if the innermost frame declares it, and in that frame
otherwise. -/
theorem setVariable_eq (m : Machine) (name : Symbol) (value : Value) :
    m.setVariable name value =
      m.frame?.elim (.error (.internal .noFrame)) fun f =>
        .ok (if f.declares name then m.withGlobal name value
          else m.onTop (·.setLocal name value)) := by
  rw [setVariable, settingVariable, result_demand_bind, frame]
  cases m.frame? with
  | none => rfl
  | some f =>
    show (if f.declares name then _ else _ : Editing Machine Unit).result m = _
    dsimp only [Option.elim]
    split
    · rfl
    · rfl

theorem setVariable_eq_ok (h : m.setVariable name value = .ok m') :
    ∃ f, m.frame? = some f ∧
      m' =
        if f.declares name then m.withGlobal name value else m.onTop (·.setLocal name value) := by
  rw [setVariable_eq] at h
  cases hframe : m.frame? with
  | none =>
    rw [hframe] at h
    cases h
  | some f =>
    rw [hframe] at h
    exact ⟨f, rfl, (Except.ok.inj h).symm⟩

end Machine

/-! ## Addresses -/

namespace Slot

/-- The machine when a slot holds another value. -/
def store (m : Machine) (value : Value) (slot : Slot) : Except Failure Machine :=
  (slot.storing value).result m

theorem storing_atomic (value : Value) (slot : Slot) : Atomic (slot.storing value) := by
  cases slot with
  | «variable» name => exact Machine.settingVariable_atomic name value
  | contents part => exact Machine.onStack_atomic (Stack.settingContents_atomic ..) _
  | property name part =>
    cases part with
    | some part => exact Machine.onStack_atomic (Stack.settingProperty_atomic ..) _
    | none => exact Machine.onWorld_atomic (World.settingProperty_atomic ..)
  | messageBox => exact (modify_total _).atomic

theorem store_eq (m : Machine) (value : Value) (slot : Slot) :
    slot.store m value =
      match slot with
      | .variable name => m.setVariable name value
      | .contents part => do return { m with world := ← m.world.setContents part value }
      | .property name (some part) => do
        return { m with world := ← m.world.setPartProperty part name.spelling value }
      | .property name none => do
        return { m with world := ← m.world.setProperty name.spelling value }
      | .messageBox =>
        .ok { m with world := { m.world with
          desktop := m.world.desktop.showMessage value.text } } := by
  cases slot with
  | «variable» name => rfl
  | contents part =>
    refine (Machine.onStack_result ..).trans ?_
    dsimp only
    unfold World.setContents Stack.setContents
    cases (Stack.settingContents part.found value).result (m.world.stack part.stack) with
    | ok | error => rfl
  | property name part =>
    cases part with
    | some part =>
      refine (Machine.onStack_result ..).trans ?_
      dsimp only
      unfold World.setPartProperty Stack.setProperty
      cases (Stack.settingProperty part.found name.spelling value).result
        (m.world.stack part.stack) with
      | ok | error => rfl
    | none => exact Machine.onWorld_result ..
  | messageBox => rfl

end Slot

namespace Address

/-- The machine when an address has been written to. -/
def write (a : Address) (m : Machine) (preposition : Preposition) (value : Value) :
    Except Failure Machine :=
  (a.writing preposition value).result m

theorem writing_atomic (a : Address) (preposition : Preposition) (value : Value) :
    Atomic (a.writing preposition value) := by
  unfold writing
  split
  · exact (modify_total _).atomic
  · exact (demand_reads _).bind_atomic fun _ => (demand_reads _).bind_atomic fun _ =>
      Slot.storing_atomic _ _

theorem write_eq (a : Address) (m : Machine) (preposition : Preposition) (value : Value) :
    a.write m preposition value =
      match a.slot with
      | .messageBox => Slot.messageBox.store m value
      | slot => (do
        a.checkChunk m
        slot.store m (← a.updated m preposition value)) := by
  obtain ⟨slot, chunk⟩ := a
  cases slot with
  | messageBox => rfl
  | «variable» _ | contents _ | property _ _ =>
    dsimp only [write, writing]
    rw [result_demand_bind]
    congr 1
    funext _
    rw [result_demand_bind]
    rfl

end Address

/-! ## Carrying edits out -/

namespace Action

variable {α β : Type} {m m' : Machine}

theorem bind_apply_ok {x : Action α} {f : α → Action β} (h : x m = .ok a m') :
    (x >>= f) m = f a m' := by
  simp only [Bind.bind, EStateM.bind, h]

theorem bind_apply_error {x : Action α} {f : α → Action β} (h : x m = .error halt m') :
    (x >>= f) m = .error halt m' := by
  simp only [Bind.bind, EStateM.bind, h]

theorem bind_eq_ok {x : Action α} {f : α → Action β} (h : (x >>= f) m = .ok b m') :
    ∃ a m₁, x m = .ok a m₁ ∧ f a m₁ = .ok b m' := by
  cases hx : x m with
  | ok a m₁ =>
    rw [bind_apply_ok hx] at h
    exact ⟨a, m₁, rfl, h⟩
  | error halt m₁ =>
    rw [bind_apply_error hx] at h
    cases h

theorem demand_apply (read : Machine → Except Failure α) (m : Machine) :
    Action.demand read m =
      match read m with
      | .ok a => .ok a m
      | .error f => .error (.failed { failure := f }) m := by
  show Action.ofExcept (read m) m = _
  cases read m <;> rfl

theorem demand_of_ok {read : Machine → Except Failure α} (h : read m = .ok a) :
    Action.demand read m = .ok a m := by
  rw [demand_apply, h]

theorem demand_of_error {read : Machine → Except Failure α} {f : Failure}
    (h : read m = .error f) : Action.demand read m = .error (.failed { failure := f }) m := by
  rw [demand_apply, h]

theorem demand_eq_ok {read : Machine → Except Failure α} (h : Action.demand read m = .ok a m') :
    read m = .ok a ∧ m' = m := by
  cases hread : read m with
  | ok b =>
    rw [demand_of_ok hread] at h
    cases h
    exact ⟨rfl, rfl⟩
  | error f =>
    rw [demand_of_error hread] at h
    cases h

theorem change_apply (f : Machine → Except Failure Machine) (m : Machine) :
    Action.change f m =
      match f m with
      | .ok m' => .ok () m'
      | .error f => .error (.failed { failure := f }) m := by
  show (Action.ofExcept (f m) >>= fun m' => set m' : Action Unit) m = _
  cases f m <;> rfl

theorem edit_of_ok {x : Editing Machine α} (h : x m = .ok a m') : Action.edit x m = .ok a m' := by
  rw [Action.edit, h]

theorem edit_of_error {x : Editing Machine α} {f : Failure} (h : x m = .error f m') :
    Action.edit x m = .error (.failed { failure := f }) m' := by
  rw [Action.edit, h]

theorem edit_eq_ok {x : Editing Machine Unit} :
    Action.edit x m = .ok () m' ↔ x.result m = .ok m' := by
  rw [Editing.result_eq_ok, Action.edit]
  cases x m with
  | ok | error => simp

theorem edit_eq_error {x : Editing Machine α} (h : Action.edit x m = .error halt m') :
    ∃ f, halt = .failed { failure := f } ∧ x m = .error f m' := by
  cases hx : x m with
  | ok a m₁ =>
    rw [edit_of_ok hx] at h
    cases h
  | error f m₁ =>
    rw [edit_of_error hx] at h
    cases h
    exact ⟨f, rfl, rfl⟩

/-- An edit that changes nothing when it fails is carried out at one stroke. -/
theorem edit_eq_change {x : Editing Machine Unit} (hx : Atomic x) :
    Action.edit x = Action.change x.result := by
  funext m
  rw [change_apply, Action.edit, Editing.result]
  cases h : x m with
  | ok a m' => rfl
  | error f m' => rw [hx h]

theorem edit_bind (x : Editing Machine α) (f : α → Editing Machine β) :
    Action.edit (x >>= f) = Action.edit x >>= fun a => Action.edit (f a) := by
  funext m
  cases hx : x m with
  | ok a m' =>
    rw [bind_apply_ok (edit_of_ok hx), Action.edit, Editing.bind_ok hx, Action.edit]
  | error failure m' =>
    rw [bind_apply_error (edit_of_error hx)]
    exact edit_of_error (Editing.bind_error hx)

theorem edit_demand (read : Machine → Except Failure α) :
    Action.edit (Editing.demand read) = Action.demand read := by
  funext m
  cases hread : read m with
  | ok a => exact (edit_of_ok (Editing.demand_of_ok hread)).trans (demand_of_ok hread).symm
  | error failure =>
    exact (edit_of_error (Editing.demand_of_error hread)).trans (demand_of_error hread).symm

theorem edit_setPartProperty (h : Handle) (name : String) (value : Value) :
    editStack h.stack (Stack.settingProperty h.found name value) =
      Action.change fun m => do
        return { m with world := ← m.world.setPartProperty h name value } := by
  rw [editStack, edit_eq_change (Machine.onStack_atomic (Stack.settingProperty_atomic ..) _)]
  congr 1
  funext m
  rw [Machine.onStack_result, World.setPartProperty, Stack.setProperty]
  cases (Stack.settingProperty h.found name value).result (m.world.stack h.stack) with
  | ok | error => rfl

theorem edit_setProperty (name : String) (value : Value) :
    Action.edit (Machine.onWorld (World.settingProperty name value)) =
      Action.change fun m => do return { m with world := ← m.world.setProperty name value } := by
  rw [edit_eq_change (Machine.onWorld_atomic (World.settingProperty_atomic name value))]
  congr 1
  funext m
  exact Machine.onWorld_result ..

/-- What is to be stored is settled before anything is written. -/
theorem edit_writing {a : Address} (hslot : a.slot ≠ .messageBox) (preposition : Preposition)
    (value : Value) :
    Action.edit (a.writing preposition value) = (do
      Action.demand a.checkChunk
      let whole ← Action.demand fun m => a.updated m preposition value
      Action.edit (a.slot.storing whole)) := by
  obtain ⟨slot, chunk⟩ := a
  cases slot with
  | messageBox => exact absurd rfl hslot
  | «variable» _ | contents _ | property _ _ =>
    simp only [Address.writing, edit_bind, edit_demand]

end Action

/-! ## Stacks -/

theorem editStack_apply {α : Type} {x : Editing Stack α} (hx : Atomic x) (number : Nat)
    (m : Machine) :
    editStack number x m =
      match x.outcome (m.world.stack number) with
      | .ok (a, s) => .ok a { m with world := m.world.withStack number s }
      | .error f => .error (.failed { failure := f }) m := by
  have hedit := Machine.onStack_apply number x m
  rw [editStack, Action.edit, Editing.outcome]
  cases h : x (m.world.stack number) with
  | ok a s =>
    rw [h] at hedit
    rw [hedit]
  | error f s =>
    rw [h, hx h] at hedit
    dsimp only at hedit
    rw [World.withStack_stack] at hedit
    rw [hedit]

theorem editStack_apply_unit {x : Editing Stack Unit} (hx : Atomic x) (number : Nat) (m : Machine) :
    editStack number x m =
      match x.result (m.world.stack number) with
      | .ok s => .ok () { m with world := m.world.withStack number s }
      | .error f => .error (.failed { failure := f }) m := by
  rw [editStack_apply hx, Editing.outcome, Editing.result]
  cases x (m.world.stack number) with
  | ok | error => rfl

/-- An edit of a stack that changes nothing when it fails is carried out at one stroke. -/
theorem editStack_eq_changeStack {x : Editing Stack Unit} (hx : Atomic x) (number : Nat) :
    editStack number x = changeStack number x.result := by
  rw [editStack, Action.edit_eq_change (Machine.onStack_atomic hx number), changeStack]
  congr 1
  funext m
  exact Machine.onStack_result ..

end CardScript
