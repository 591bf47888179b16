import CardScript.Proofs.Script.Law
import CardScript.Proofs.Stack.Entries

/-!
# Writing to containers

All that scripts can write to is kept in entries: the variables of the innermost frame, the
globals, the properties that belong to no part, and the entries of the stacks. An address is
written in one step: if it fails, nothing has changed, and if it succeeds, either a message has
been shown or one entry holds what was to be stored and all else is what it was
(`write_atomic_and_local`).
-/

namespace CardScript

/-! ## Entries of a machine -/

/-- Where a machine keeps a value. -/
inductive Entry where
  /-- A variable of the innermost frame. -/
  | ofFrame (key : String)
  | global (key : String)
  /-- A property that belongs to no part. -/
  | ofWorld (key : String)
  | ofStack (number : Nat) (entry : Stack.Entry)
deriving DecidableEq

namespace Entry

/-- The value in an entry. -/
def read? (m : Machine) : Entry → Option Value
  | ofFrame key => (m.frame?.map (·.locals)).bind (valueAt (· == key))
  | global key => valueAt (·.key == key) m.world.globals.entries
  | ofWorld key => m.world.properties.find? key
  | ofStack number entry => entry.read? (m.world.stack number)

/-- The machine without what an entry holds. -/
def without (m : Machine) : Entry → Machine
  | ofFrame key => m.onTop fun f => { f with locals := dropKey (· == key) f.locals }
  | global key => m.withGlobals ⟨dropKey (·.key == key) m.world.globals.entries⟩
  | ofWorld key => m.withWorld { m.world with properties := m.world.properties.without key }
  | ofStack number entry =>
    m.withWorld { m.world with allStacks := m.world.allStacks.modify number entry.without }

/-- From one machine to another by writing to an entry and doing nothing else. -/
structure Written (e : Entry) (value : Value) (m m' : Machine) : Prop where
  read : e.read? m' = some value
  others : ∀ e', e' ≠ e → e'.read? m' = e'.read? m
  rest : e.without m' = e.without m

theorem stack_without_ofStack (m : Machine) (number other : Nat) (entry : Stack.Entry) :
    ((ofStack number entry).without m).world.stack other = m.world.stack other ∨
      other = number ∧
        ((ofStack number entry).without m).world.stack other =
          entry.without (m.world.stack other) := by
  simp only [without, Machine.withWorld, World.stack, List.getElem?_modify]
  by_cases h : number = other
  · subst h
    cases m.world.allStacks[number]? with
    | none => exact .inl rfl
    | some s => exact .inr ⟨rfl, by simp⟩
  · exact .inl (by simp [h])

theorem read?_without {e e' : Entry} (h : e' ≠ e) (m : Machine) :
    e'.read? (e.without m) = e'.read? m := by
  cases e with
  | ofFrame key =>
    cases e' with
    | ofFrame key' =>
      have hkey : key' ≠ key := fun hkey => h (by rw [hkey])
      simp only [read?, without, Machine.frame?_onTop, Option.map_map, Option.bind_map]
      exact congrArg _ (funext fun f => valueAt_dropKey (not_same_of_ne hkey) f.locals)
    | global key' | ofWorld key' | ofStack number entry => rfl
  | global key =>
    cases e' with
    | global key' =>
      have hkey : key' ≠ key := fun hkey => h (by rw [hkey])
      exact valueAt_dropKey (fun s hs => not_same_of_ne hkey s.key hs) m.world.globals.entries
    | ofFrame key' | ofWorld key' | ofStack number entry => rfl
  | ofWorld key =>
    cases e' with
    | ofWorld key' =>
      have hkey : key' ≠ key := fun hkey => h (by rw [hkey])
      exact m.world.properties.find?_without hkey
    | ofFrame key' | global key' | ofStack number entry => rfl
  | ofStack number entry =>
    cases e' with
    | ofFrame key' | global key' | ofWorld key' => rfl
    | ofStack other entry' =>
      rcases stack_without_ofStack m number other entry with hsame | ⟨rfl, hstack⟩
      · simp only [read?, hsame]
      · have hentry : entry' ≠ entry := fun hentry => h (by rw [hentry])
        simp only [read?, hstack, Stack.Entry.read?_without hentry]

theorem Written.of_rest {e : Entry} {value : Value} {m m' : Machine}
    (hread : e.read? m' = some value) (hrest : e.without m' = e.without m) :
    e.Written value m m' where
  read := hread
  others e' h := by rw [← read?_without h m', hrest, read?_without h m]
  rest := hrest

end Entry

/-! ## Writing to one entry -/

section Store

variable {m m' : Machine} {value : Value}

theorem Globals.puts (name : Symbol) (value : Value) :
    Puts (·.key == name.key) value (put name value) :=
  ⟨⟨name, beq_self_eq_true name.key, rfl⟩, fun _ _ _ => rfl⟩

theorem Globals.get?_set (g : Globals) (name : Symbol) (value : Value) :
    (g.set name value).get? name = some value :=
  (puts name value).valueAt_eq g.entries

theorem Machine.withGlobal_written (m : Machine) (name : Symbol) (value : Value) :
    (Entry.global name.key).Written value m (m.withGlobal name value) := by
  have hputs := Globals.puts name value
  refine .of_rest (hputs.valueAt_eq m.world.globals.entries) ?_
  exact congrArg (fun entries => m.withGlobals ⟨entries⟩) (hputs.dropKey_eq m.world.globals.entries)

theorem Machine.setLocal_written {f : Frame} (hf : m.frame? = some f) (name : Symbol)
    (value : Value) :
    (Entry.ofFrame name.key).Written value m (m.onTop (·.setLocal name value)) := by
  have hputs := PropertyTable.puts name.key value
  refine .of_rest ?_ ?_
  · simp only [Entry.read?, Machine.frame?_onTop, hf, Option.map_some, Option.bind_some]
    exact hputs.valueAt_eq f.locals
  · have hframe (g : Frame) :
        { g.setLocal name value with
          locals := dropKey (· == name.key) (g.setLocal name value).locals } =
        { g with locals := dropKey (· == name.key) g.locals } :=
      congrArg (fun locals => { g with locals }) (hputs.dropKey_eq g.locals)
    simp only [Entry.without, Machine.onTop, CallStack.modifyTop, List.modifyHead_modifyHead,
      Function.comp_def, hframe]

theorem Machine.setProperty_written {w : World} {name : String}
    (h : m.world.setProperty name value = .ok w) :
    (Entry.ofWorld (Text.lowerString name)).Written value m (m.withWorld w) := by
  obtain ⟨t, ht, rfl, -⟩ := World.setProperty_eq_ok h
  refine .of_rest (PropertyTable.find?_set ht) ?_
  exact congrArg (fun properties => m.withWorld { m.world with properties })
    (PropertyTable.without_set ht)

/-- Writing to an entry of a stack writes to one entry of the machine. -/
theorem Machine.withStack_written {number : Nat} {entry : Stack.Entry} {s : Stack}
    (hnumber : number < m.world.allStacks.length)
    (h : entry.Written value (m.world.stack number) s) :
    (Entry.ofStack number entry).Written value m
      (m.withWorld (m.world.withStack number s)) := by
  refine .of_rest ?_ ?_
  · simp only [Entry.read?, Machine.withWorld, World.stack_withStack_self hnumber, h.read]
  · have hrest := h.rest
    simp only [World.stack, List.getElem?_eq_getElem hnumber, Option.getD_some] at hrest
    have hstacks : (m.world.allStacks.set number s).modify number entry.without =
        m.world.allStacks.modify number entry.without := by
      refine List.ext_getElem? fun i => ?_
      rw [List.getElem?_modify, List.getElem?_modify, List.getElem?_set]
      by_cases hi : number = i
      · subst hi
        simp [hnumber, hrest]
      · simp [hi]
    simp only [Entry.without, Machine.withWorld, World.withStack, hstacks]

end Store

/-! ## Slots -/

/-- A stack that is not there takes no text. -/
theorem Stack.setContents_empty (found : Found) (value : Value) :
    ∃ e, ({} : Stack).setContents found value = .error e := by
  rw [setContents_eq]
  cases found.part <;> exact ⟨_, rfl⟩

/-- A stack that is not there has no property that could be set. -/
theorem Stack.setProperty_empty (found : Found) (name : String) (value : Value) :
    ∃ e, ({} : Stack).setProperty found name value = .error e := by
  rw [setProperty_eq]
  dsimp only
  split
  · exact ⟨_, rfl⟩
  split
  · exact setContents_empty found value
  cases hpart : found.part with
  | stack =>
    refine ⟨.noSuchProperty name, ?_⟩
    rfl
  | card id => exact ⟨_, rfl⟩
  | background id => exact ⟨_, rfl⟩
  | part kind layer id => exact ⟨_, rfl⟩

/-- Only a stack that is there can be changed. -/
theorem World.lt_of_change {w : World} {number : Nat} (f : Stack → Except Failure Stack)
    (hempty : ∃ e, f {} = .error e) {s : Stack} (h : f (w.stack number) = .ok s) :
    number < w.allStacks.length := by
  by_contra hle
  obtain ⟨e, he⟩ := hempty
  rw [stack, List.getElem?_eq_none (Nat.not_lt.1 hle), Option.getD_none, he] at h
  cases h

theorem World.stack_mem {w : World} {number : Nat} (h : number < w.allStacks.length) :
    w.stack number ∈ w.allStacks := by
  rw [stack, List.getElem?_eq_getElem h, Option.getD_some]
  exact List.getElem_mem h

namespace Slot

/-- Where a slot keeps its value. What is shown in the message box is not kept. -/
def entryIn? (m : Machine) : Slot → Option Entry
  | .variable name =>
    m.frame?.map fun f => if f.declares name then .global name.key else .ofFrame name.key
  | contents part =>
    ((m.world.stack part.stack).entryOfContents? part.found).map (.ofStack part.stack)
  | property name (some part) =>
    ((m.world.stack part.stack).entryOfProperty? part.found name.key).map (.ofStack part.stack)
  | property name none => some (.ofWorld name.key)
  | messageBox => none

/-- Storing a value writes to the entry of the slot. -/
theorem store_written {slot : Slot} {m m' : Machine} {value : Value}
    (hm : ∀ s ∈ m.world.allStacks, s.Orderly) (hslot : slot ≠ .messageBox)
    (h : slot.store m value = .ok m') :
    ∃ e, slot.entryIn? m = some e ∧ e.Written value m m' := by
  rw [store_eq] at h
  cases slot with
  | «variable» name =>
    obtain ⟨f, hf, h⟩ := Machine.setVariable_eq_ok h
    rw [entryIn?, hf, Option.map_some, h]
    refine ⟨_, rfl, ?_⟩
    split
    · exact m.withGlobal_written name value
    · exact Machine.setLocal_written hf name value
  | contents part =>
    obtain ⟨w, hw, h⟩ := Failure.bind_eq_ok.1 h
    cases h
    obtain ⟨s, hs, hw⟩ := Failure.bind_eq_ok.1 hw
    cases hw
    have hnumber := World.lt_of_change (·.setContents part.found value)
      (Stack.setContents_empty part.found value) hs
    obtain ⟨e, he, hwritten⟩ := (hm _ (World.stack_mem hnumber)).setContents_written hs
    exact ⟨.ofStack part.stack e, by rw [entryIn?, he, Option.map_some],
      Machine.withStack_written hnumber hwritten⟩
  | property name part =>
    cases part with
    | none =>
      obtain ⟨w, hw, h⟩ := Failure.bind_eq_ok.1 h
      cases h
      exact ⟨_, rfl, Machine.setProperty_written hw⟩
    | some part =>
      obtain ⟨w, hw, h⟩ := Failure.bind_eq_ok.1 h
      cases h
      obtain ⟨s, hs, hw⟩ := Failure.bind_eq_ok.1 hw
      cases hw
      have hnumber := World.lt_of_change (·.setProperty part.found name.spelling value)
        (Stack.setProperty_empty part.found name.spelling value) hs
      obtain ⟨e, he, hwritten⟩ := (hm _ (World.stack_mem hnumber)).setProperty_written hs
      exact ⟨.ofStack part.stack e, by rw [entryIn?, Symbol.key, he, Option.map_some],
        Machine.withStack_written hnumber hwritten⟩
  | messageBox => exact absurd rfl hslot

end Slot

namespace Address

/-- Anything but the message box is written by storing the updated value. -/
theorem write_eq_ok {a : Address} {m m' : Machine} {preposition : Preposition} {value : Value}
    (hslot : a.slot ≠ .messageBox) (h : a.write m preposition value = .ok m') :
    ∃ new, a.updated m preposition value = .ok new ∧ a.slot.store m new = .ok m' := by
  rw [write_eq] at h
  split at h
  next hmessageBox => exact absurd hmessageBox hslot
  next =>
    obtain ⟨_, -, h⟩ := Failure.bind_eq_ok.1 h
    exact Failure.bind_eq_ok.1 h

/-- **Writing is atomic and local.** If writing to an address fails, the machine is left as it was.
If it succeeds, then either the address is the message box, and all that has happened is that one
message more was shown; or the address has an entry, which holds the updated value, and all that
lies outside this entry is left as it was. -/
theorem write_atomic_and_local (a : Address) (preposition : Preposition) (value : Value)
    (m : Machine) (hm : ∀ s ∈ m.world.allStacks, s.Orderly) :
    let write := Action.edit (a.writing preposition value)
    (∀ halt m', write m = .error halt m' → m' = m) ∧
    ∀ m', write m = .ok () m' →
      (a.slot = .messageBox ∧
        m' = m.withWorld { m.world with
          desktop := { m.world.desktop with
            messages := m.world.desktop.messages ++ [value.text] } }) ∨
      ∃ e new, a.slot.entryIn? m = some e ∧ a.updated m preposition value = .ok new ∧
        e.Written new m m' := by
  intro write
  refine ⟨fun halt m' h => ?_, fun m' h => ?_⟩
  · obtain ⟨f, -, hfails⟩ := Action.edit_eq_error h
    exact a.writing_atomic preposition value hfails
  · have hwrite : a.write m preposition value = .ok m' := Action.edit_eq_ok.1 h
    by_cases hslot : a.slot = .messageBox
    · refine .inl ⟨hslot, ?_⟩
      rw [write_eq, hslot] at hwrite
      cases hwrite
      rfl
    · obtain ⟨new, hnew, hstore⟩ := write_eq_ok hslot hwrite
      obtain ⟨e, he, hwritten⟩ := Slot.store_written hm hslot hstore
      exact .inr ⟨e, new, he, hnew, hwritten⟩

/-- A second item is put into a field of the background, which holds nothing yet, as it is seen from
the first of two cards. Only what the field holds on this card changes. -/
theorem write_atomic_and_local_cardText :
    ∃ (s : Stack) (m' : Machine) (new : Value), StackSnapshot.twoCards.toStack = .ok s ∧
      let m : Machine := { world := { allStacks := [s] } }
      let item : Address :=
        { slot := .contents ⟨0, .part .field .background 101, some 103⟩
          chunk := some (.ofText ⟨.item, .at 2, none⟩) }
      Action.edit (item.writing .into (.ofText "two")) m = .ok () m' ∧
        new.text = ",two" ∧ (Entry.ofStack 0 (.cardText 101 103)).Written new m m' := by
  let item : Address :=
    { slot := .contents ⟨0, .part .field .background 101, some 103⟩
      chunk := some (.ofText ⟨.item, .at 2, none⟩) }
  obtain ⟨s, hs, hentry, htext, hok⟩ : ∃ s : Stack, StackSnapshot.twoCards.toStack = .ok s ∧
      let m : Machine := { world := { allStacks := [s] } }
      item.slot.entryIn? m = some (.ofStack 0 (.cardText 101 103)) ∧
        (item.updated m .into (.ofText "two")).toOption.map (·.text) = some ",two" ∧
        (item.write m .into (.ofText "two")).toOption.isSome :=
    ⟨_, rfl, by decide +kernel⟩
  have horderly : ∀ t ∈ [s], t.Orderly := by
    intro t ht
    obtain rfl := List.mem_singleton.1 ht
    exact (StackSnapshot.toStack_coherent hs).toOrderly
  let m : Machine := { world := { allStacks := [s] } }
  cases hwrite : item.write m .into (.ofText "two") with
  | error f =>
    rw [hwrite] at hok
    cases hok
  | ok m' =>
    have hrun : Action.edit (item.writing .into (.ofText "two")) m = .ok () m' :=
      Action.edit_eq_ok.2 hwrite
    rcases (write_atomic_and_local item .into (.ofText "two") m horderly).2 m' hrun with
      ⟨hslot, -⟩ | ⟨e, new, he, hnew, hwritten⟩
    · cases hslot
    · obtain rfl := Option.some.inj (hentry.symm.trans he)
      rw [hnew] at htext
      exact ⟨s, m', new, hs, hrun, Option.some.inj htext, hwritten⟩

end Address

end CardScript
