import CardScript.Proofs.Chunk.WriteBack
import CardScript.Proofs.Script.Writing

/-!
# Writing back what was read

A container that is read and written through one address: what was read is put back. Reading and
writing do not go by the same functions, so this is more than the law of chunks (`Chunk.put_get`):
a part without a name reads as its identifier, a field reads one of two texts, and a variable that
was never set reads as its own name but is empty when it is written. A slot reads as the text stored
in it (`Slot.read_store`), and what is stored is the text that was there, unless a chunk is taken of
such a variable (`write_back_keeps_text`).
-/

namespace CardScript

/-! ## Reading what was stored -/

namespace Part

variable {p q : Part} {card : Option PartId} {value : Value}

/-- Writing the text of all cards leaves it open who reads it. -/
theorem isPerCard_setSharedText (h : p.setSharedText value = .ok q) :
    q.isPerCard = p.isPerCard := by
  obtain ⟨t, ht, h⟩ := Failure.bind_eq_ok.1 h
  cases h
  have hother : t.find? "sharedtext" = p.properties.find? "sharedtext" := by
    refine PropertyTable.find?_set_ne ht ?_
    cases p.kind <;> decide +kernel
  simp only [isPerCard, PropertyTable.flag, hother]

theorem text_setText (h : p.setText card value = .ok q) : q.text card = .ok value := by
  have hshared (h : p.setSharedText value = .ok q) :
      q.properties.get (contentsProperty q.kind) = .ok value := by
    obtain ⟨t, ht, h⟩ := Failure.bind_eq_ok.1 h
    cases h
    rw [PropertyTable.get, PropertyTable.find?_set ht]
  rw [setText_eq] at h
  cases card with
  | none => exact hshared h
  | some card =>
    dsimp only at h
    split at h
    next hpercard =>
      cases h
      have hfind := (puts_cardText card value).valueAt_eq p.cardTexts
      rw [valueAt] at hfind
      simp only [isPerCard] at hpercard
      simp [text, isPerCard, hpercard, hfind]
    next hpercard =>
      rw [text, isPerCard_setSharedText h, if_neg hpercard]
      exact hshared h

end Part

namespace Stack

variable {s t : Stack} {found : Found} {name : String} {value before : Value}

theorem contents_setContents (h : s.setContents found value = .ok t) :
    t.contents found = .ok value := by
  rw [setContents_eq] at h
  split at h
  next kind layer id hpart =>
    split at h
    next p hp =>
      obtain ⟨q, hq, h⟩ := Failure.bind_eq_ok.1 h
      cases h
      obtain ⟨hid, -⟩ := Part.of_outline_eq (Part.outline_setText hq)
      have hpart' : (s.withPart q).part? id = some q :=
        part?_withPart hp (hid.trans (part?_eq_some hp).2)
      simp only [contents, hpart, hpart', Part.text_setText hq]
    next => cases h
  · cases h

/-- A property that is neither computed nor the name is read off the contents or the table. -/
theorem getProperty_stored (hcomputed : Text.lowerString name ∉ computedKeys)
    (hname : Text.lowerString name ≠ "name") :
    s.getProperty found name =
      if isContentsKey found.part (Text.lowerString name) then s.contents found
      else s.tableOf found.part >>= (·.get name) := by
  simp only [computedKeys, List.mem_cons, not_or] at hcomputed
  unfold getProperty
  split <;> simp_all

theorem getProperty_name {table : PropertyTable} (hname : Text.lowerString name = "name")
    (htable : s.tableOf found.part = .ok table) :
    s.getProperty found name = .ok (.ofText
      (if (table.textOf "name").isEmpty then found.part.idForm else table.textOf "name")) := by
  simp only [getProperty, hname, nameOf, htable]
  rfl

/-- What holds the contents is not called the name. -/
theorem ne_name_of_isContentsKey {r : PartRef} {key : String} (h : isContentsKey r key) :
    key ≠ "name" := by
  rintro rfl
  cases r with
  | stack | card id | background id => cases h
  | part kind layer id =>
    have hkey : "name" = Part.contentsProperty kind := eq_of_beq h
    revert hkey
    cases kind <;> decide

/-- A property that is set to what it reads as still reads so. A part without a name is then called
by its identifier, which is what its name has been read as. -/
theorem getProperty_setProperty (hset : s.setProperty found name value = .ok t)
    (hget : s.getProperty found name = .ok before) (htext : value.text = before.text) :
    ∃ after, t.getProperty found name = .ok after ∧ after.text = before.text := by
  rw [setProperty_eq] at hset
  dsimp only at hset
  split at hset
  · cases hset
  next hcomputed =>
  have hcomputed : Text.lowerString name ∉ computedKeys := by simpa using hcomputed
  split at hset
  next hcontents =>
    rw [getProperty_stored hcomputed (ne_name_of_isContentsKey hcontents), if_pos hcontents]
    exact ⟨value, contents_setContents hset, htext⟩
  next hcontents =>
    obtain ⟨table, htable, hset⟩ := Failure.bind_eq_ok.1 hset
    obtain ⟨table', hset', hset⟩ := Failure.bind_eq_ok.1 hset
    cases hset
    have htable' : (s.withTable table' found.part).tableOf found.part = .ok table' := by
      rw [tableOf, tableOf?_withTable (tableOf_eq_ok htable)]
    have hfind := PropertyTable.find?_set hset'
    by_cases hname : Text.lowerString name = "name"
    · rw [getProperty_name hname htable] at hget
      cases hget
      rw [getProperty_name hname htable']
      refine ⟨_, rfl, ?_⟩
      have hstored : table'.textOf "name" = value.text := by
        rw [PropertyTable.textOf, ← hname, hfind]
        rfl
      rw [hstored, htext]
      simp only [Value.ofText]
      -- What is stored for a part without a name is its identifier, as which it is read either way.
      by_cases hunnamed : (table.textOf "name").isEmpty
      · simp only [hunnamed, if_true, ite_self]
      · simp only [hunnamed, Bool.false_eq_true, if_false]
    · rw [getProperty_stored hcomputed hname, if_neg hcontents, htable']
      refine ⟨value, ?_, htext⟩
      show table'.get name = .ok value
      rw [PropertyTable.get, hfind]

end Stack

namespace World

variable {w w' : World} {part : Handle} {name : String} {value before : Value}

theorem contents_setContents (h : w.setContents part value = .ok w') :
    w'.contents part = .ok value := by
  obtain ⟨s, hs, h⟩ := Failure.bind_eq_ok.1 h
  cases h
  have hnumber := lt_of_change (·.setContents part.found value)
    (Stack.setContents_empty part.found value) hs
  rw [contents, stack_withStack_self hnumber, Stack.contents_setContents hs]

theorem partProperty_setPartProperty (hset : w.setPartProperty part name value = .ok w')
    (hget : w.partProperty part name = .ok before) (htext : value.text = before.text) :
    ∃ after, w'.partProperty part name = .ok after ∧ after.text = before.text := by
  obtain ⟨s, hs, hset⟩ := Failure.bind_eq_ok.1 hset
  cases hset
  have hnumber := lt_of_change (·.setProperty part.found name value)
    (Stack.setProperty_empty part.found name value) hs
  rw [partProperty, stack_withStack_self hnumber]
  exact Stack.getProperty_setProperty hs hget htext

theorem property_setProperty (h : w.setProperty name value = .ok w') :
    w'.property name = .ok value := by
  obtain ⟨t, ht, rfl, hselected, -⟩ := setProperty_eq_ok h
  rw [property, if_neg (Bool.eq_false_iff.1 hselected), PropertyTable.get,
    PropertyTable.find?_set ht]

end World

theorem Machine.lookup?_setVariable {m m' : Machine} {name : Symbol} {value : Value}
    (h : m.setVariable name value = .ok m') : m'.lookup? name = some value := by
  obtain ⟨f, hf, h⟩ := setVariable_eq_ok h
  by_cases hglobal : f.declares name
  · rw [if_pos hglobal] at h
    have hframe : m'.frame? = some f := by
      rw [h]
      exact hf
    have hvalue : m'.world.globals.get? name = some value := by
      rw [h]
      exact m.world.globals.get?_set name value
    simp only [lookup?, hframe, hglobal, if_true, hvalue, Option.getD_some]
  · rw [if_neg hglobal] at h
    have hlocal : (f.setLocal name value).local? name = some value :=
      (PropertyTable.puts name.key value).valueAt_eq f.locals
    have hdeclares : (f.setLocal name value).declares name = f.declares name := rfl
    simp only [h, hglobal, if_false, lookup?, frame?_onTop, hf, Option.map_some, hdeclares, hlocal,
      Bool.false_eq_true]

namespace Slot

variable {slot : Slot} {m m' : Machine} {value before : Value}

/-- A slot in which the text it reads as was stored reads as this text. -/
theorem read_store (hstore : slot.store m value = .ok m') (hread : slot.read m = .ok before)
    (htext : value.text = before.text) :
    ∃ after, slot.read m' = .ok after ∧ after.text = before.text := by
  rw [store_eq] at hstore
  cases slot with
  | «variable» name =>
    refine ⟨value, ?_, htext⟩
    rw [read, Machine.valueOf, Machine.lookup?_setVariable hstore, Option.getD_some]
  | contents part =>
    obtain ⟨w, hw, hstore⟩ := Failure.bind_eq_ok.1 hstore
    cases hstore
    exact ⟨value, World.contents_setContents hw, htext⟩
  | property name part =>
    cases part with
    | none =>
      obtain ⟨w, hw, hstore⟩ := Failure.bind_eq_ok.1 hstore
      cases hstore
      exact ⟨value, World.property_setProperty hw, htext⟩
    | some part =>
      obtain ⟨w, hw, hstore⟩ := Failure.bind_eq_ok.1 hstore
      cases hstore
      exact World.partProperty_setPartProperty hw hread htext
  | messageBox =>
    cases hread
    exact ⟨.empty, rfl, rfl⟩

/-- Before it is written, a slot holds what it reads as, unless it is a variable that is not set. -/
theorem current_eq_read (h : ∀ name, slot = .variable name → (m.lookup? name).isSome) :
    slot.current m = slot.read m := by
  cases slot with
  | «variable» name =>
    obtain ⟨v, hv⟩ := Option.isSome_iff_exists.1 (h name rfl)
    simp [current, read, Machine.valueOf, hv]
  | contents part | property name part | messageBox => rfl

end Slot

/-! ## Whole containers -/

/-- The slot that an address is a chunk of. -/
def Address.whole (a : Address) : Address :=
  { a with chunk := none }

namespace Container

/-- Which chunk of its whole a container is. -/
def chunk? : Container → Option ChunkExpr
  | var _ chunk | part _ chunk | property _ _ chunk => chunk
  | messageBox => none

/-- The container that this one is a chunk of. -/
def whole : Container → Container
  | var name _ => var name none
  | part p _ => part p none
  | property name p _ => property name p none
  | messageBox => messageBox

/-- Resolves a container but for its chunk. -/
def evalSlot (invoke : Invoke) : Container → Action Slot
  | var name _ => pure (.variable name)
  | part p _ => do return .contents (← resolvePart invoke p)
  | property name none _ => pure (.property name none)
  | property name (some p) _ => do return .property name (some (← resolvePart invoke p))
  | messageBox => pure .messageBox

theorem evalSlot_whole (invoke : Invoke) (c : Container) :
    c.whole.evalSlot invoke = c.evalSlot invoke := by
  cases c with
  | var name chunk | part p chunk | messageBox => rfl
  | property name p chunk => cases p <;> rfl

theorem chunk?_whole (c : Container) : c.whole.chunk? = none := by
  cases c <;> rfl

end Container

/-- A container is resolved slot first. -/
theorem evalContainer_eq (invoke : Invoke) (c : Container) :
    evalContainer invoke c =
      c.evalSlot invoke >>= fun slot => addressOf invoke slot c.chunk? := by
  cases c with
  | var name chunk | part p chunk | messageBox =>
    simp [evalContainer, Container.evalSlot, Container.chunk?, addressOf]
  | property name p chunk =>
    cases p <;> simp [evalContainer, Container.evalSlot, Container.chunk?]

namespace Address

variable {a : Address} {m m' : Machine} {v whole new : Value}

/-- What can be read has chunks. -/
theorem checkChunk_of_read (h : a.slot.read m = .ok whole) : a.checkChunk m = .ok () := by
  obtain ⟨slot, chunk⟩ := a
  cases slot with
  | contents part =>
    have hholds : part.holdsText := by
      have hcontents : (m.world.stack part.stack).contents part.found = .ok whole := h
      unfold Stack.contents at hcontents
      split at hcontents
      next hpart => simp only [Handle.holdsText, hpart]
      next => cases hcontents
    cases chunk with
    | none => rfl
    | some chunk => simp only [checkChunk, hholds, if_true]
  | «variable» name | property name part | messageBox => rfl

/-- An address is read as its slot, or as a chunk of it. -/
theorem read_eq_ok_iff :
    a.read m = .ok v ↔ ∃ whole, a.slot.read m = .ok whole ∧
      v = a.chunk.elim whole fun chunk =>
        .ofText (String.ofList (chunk.get m.world.itemDelimiter whole.text.toList)) := by
  constructor
  · intro h
    obtain ⟨_, _, h⟩ := Failure.bind_eq_ok.1 h
    obtain ⟨whole, hwhole, h⟩ := Failure.bind_eq_ok.1 h
    refine ⟨whole, hwhole, ?_⟩
    cases hchunk : a.chunk with
    | none | some chunk =>
      rw [hchunk] at h
      cases h
      rfl
  · rintro ⟨whole, hwhole, rfl⟩
    rw [read, checkChunk_of_read hwhole, hwhole]
    cases a.chunk <;> rfl

theorem read_whole (a : Address) (m : Machine) : a.whole.read m = a.slot.read m := by
  obtain ⟨slot, chunk⟩ := a
  have hcheck : (whole ⟨slot, chunk⟩).checkChunk m = .ok () := by
    cases slot <;> rfl
  rw [read, hcheck]
  exact bind_pure (slot.read m)

/-- What is put into a chunk of a slot is put into a chunk of what the slot holds. -/
theorem updated_chunk {slot : Slot} {chunk : Chunk Chunk.Place} (hslot : slot.current m = .ok whole)
    (h : updated ⟨slot, some chunk⟩ m .into v = .ok new) :
    chunk.put m.world.itemDelimiter whole.text.toList .into v.text.toList =
      .ok new.text.toList := by
  obtain ⟨whole', hslot', h⟩ := Failure.bind_eq_ok.1 h
  cases hslot.symm.trans hslot'
  obtain ⟨cs, hcs, h⟩ := Failure.bind_eq_ok.1 h
  cases h
  rw [hcs, Value.ofText, String.toList_ofList]

/-- What is stored when an address is written back is the text of the whole slot. -/
theorem updated_back {slot : Slot} {chunk : Option (Chunk Chunk.Place)}
    (hcurrent : chunk.isSome → slot.current m = .ok whole)
    (h : updated ⟨slot, chunk⟩ m .into (chunk.elim whole fun chunk =>
      .ofText (String.ofList (chunk.get m.world.itemDelimiter whole.text.toList))) = .ok new) :
    new.text = whole.text := by
  cases chunk with
  | none =>
    cases h
    rfl
  | some chunk =>
    have hput := updated_chunk (hcurrent rfl) h
    simp only [Option.elim_some, Value.ofText, String.toList_ofList, Chunk.put_get,
      Except.ok.injEq] at hput
    exact (String.toList_injective hput).symm

end Address

theorem slot_addressOf {invoke : Invoke} {slot : Slot} {chunk : Option ChunkExpr} {a : Address}
    {m₀ m : Machine} (h : addressOf invoke slot chunk m₀ = .ok a m) : a.slot = slot := by
  cases chunk with
  | none =>
    cases h
    rfl
  | some chunk =>
    obtain ⟨c, m₁, -, h⟩ := Action.bind_eq_ok h
    obtain ⟨c', m₂, -, h⟩ := Action.bind_eq_ok h
    cases h
    rfl

/-- A container resolves to a chunk of what its whole resolves to. -/
theorem evalContainer_whole {invoke : Invoke} {c : Container} {a : Address} {m₀ m : Machine}
    (h : evalContainer invoke c m₀ = .ok a m) :
    ∃ m₁, evalContainer invoke c.whole m₀ = .ok a.whole m₁ := by
  rw [evalContainer_eq] at h
  obtain ⟨slot, m₁, hslot, h⟩ := Action.bind_eq_ok h
  refine ⟨m₁, ?_⟩
  rw [evalContainer_eq, Container.evalSlot_whole, Action.bind_apply_ok hslot,
    Container.chunk?_whole, Address.whole, slot_addressOf h]
  rfl

/-! ## Writing back -/

/-- **Writing back changes no text**, chunks of unset variables apart. Let a container resolve to an
address, and let what is read there be written there. Then the whole of the container, resolved at
the same time, reads as the same text before and after. Only a variable that is not set reads as
its own name and is empty when a chunk of it is written: it then holds the chunk of its name, put
into the same chunk of nothing. -/
theorem write_back_keeps_text (invoke : Invoke) (c : Container) (a : Address) (v : Value)
    (m₀ m m' : Machine) (haddress : evalContainer invoke c m₀ = .ok a m)
    (hread : a.read m = .ok v) (hwrite : Action.edit (a.writing .into v) m = .ok () m') :
    (∃ m₁, evalContainer invoke c.whole m₀ = .ok a.whole m₁) ∧
    ∃ before after, a.whole.read m = .ok before ∧ a.whole.read m' = .ok after ∧
      ((∀ name, a.slot = .variable name → a.chunk.isSome → (m.lookup? name).isSome) →
        after.text = before.text) ∧
      ∀ name chunk, a = ⟨.variable name, some chunk⟩ → m.lookup? name = none →
        before.text = name.spelling ∧
        chunk.put m.world.itemDelimiter [] .into
          (chunk.get m.world.itemDelimiter name.spelling.toList) = .ok after.text.toList := by
  refine ⟨evalContainer_whole haddress, ?_⟩
  simp only [Address.read_whole]
  obtain ⟨whole, hwhole, rfl⟩ := Address.read_eq_ok_iff.1 hread
  obtain ⟨slot, chunk⟩ := a
  by_cases hslot : slot = .messageBox
  · subst hslot
    cases hwhole
    exact ⟨.empty, .empty, rfl, rfl, fun _ => rfl, nofun⟩
  obtain ⟨new, hnew, hstore⟩ := Address.write_eq_ok hslot (Action.edit_eq_ok.1 hwrite)
  by_cases hset : ∀ name, slot = .variable name → chunk.isSome → (m.lookup? name).isSome
  · have hcurrent (hchunk : chunk.isSome) : slot.current m = .ok whole := by
      rw [Slot.current_eq_read fun name hname => hset name hname hchunk, hwhole]
    obtain ⟨after, hafter, hsame⟩ :=
      Slot.read_store hstore hwhole (Address.updated_back hcurrent hnew)
    refine ⟨whole, after, hwhole, hafter, fun _ => hsame, ?_⟩
    rintro name chunk ⟨⟩ hunset
    have hsome := hset name rfl rfl
    rw [hunset] at hsome
    cases hsome
  · -- The chunk is read from the name of the variable and put into nothing.
    obtain ⟨name, rfl, hchunk, hunset⟩ : ∃ name, slot = .variable name ∧ chunk.isSome ∧
        m.lookup? name = none := by simpa using hset
    obtain ⟨chunk, rfl⟩ := Option.isSome_iff_exists.1 hchunk
    have hname : whole = .ofText name.spelling := by
      rw [Slot.read, Machine.valueOf, hunset] at hwhole
      exact (Except.ok.inj hwhole).symm
    have hempty : Slot.current m (.variable name) = .ok .empty := by
      rw [Slot.current, hunset, Option.getD_none]
    refine ⟨whole, new, hwhole, ?_, fun hset' => absurd hset' hset, ?_⟩
    · rw [Slot.read, Machine.valueOf, Machine.lookup?_setVariable hstore, Option.getD_some]
    · rintro name chunk ⟨⟩ _
      have hput := Address.updated_chunk hempty hnew
      rw [hname, Option.elim_some, Value.ofText, String.toList_ofList] at hput
      exact ⟨by rw [hname, Value.ofText], hput⟩

/-- The last word of the name of a card that has no name. The card is then called by the identifier
that its name was read as. -/
theorem write_back_keeps_text_nameless :
    ∃ (s : Stack) (m' : Machine), StackSnapshot.twoCards.toStack = .ok s ∧
      let m : Machine := { world := { allStacks := [s] }, context := { stack := some 0 } }
      let a : Address :=
        ⟨.property ⟨"name"⟩ (some ⟨0, .ofCard 103⟩), some (.ofText ⟨.word, .last, none⟩)⟩
      evalContainer (CardScript.invoke 0)
        (.property ⟨"name"⟩ (some (.named none .card (.literal "1" false)))
          (some (.mk .word (.ordinal .last) none none))) m = .ok a m ∧
      a.read m = .ok (.ofText "103") ∧
      Action.edit (a.writing .into (.ofText "103")) m = .ok () m' ∧
      (m.world.stack 0).describe (.card 103) = "card id 103" ∧
      (m'.world.stack 0).describe (.card 103) = "card \"card id 103\"" ∧
      ∃ before after, a.whole.read m = .ok before ∧ a.whole.read m' = .ok after ∧
        after.text = before.text := by
  have hback (c : Container) {a : Address} {v : Value} {m m' : Machine}
      (haddress : evalContainer (CardScript.invoke 0) c m = .ok a m) (hread : a.read m = .ok v)
      (hwrite : Action.edit (a.writing .into v) m = .ok () m')
      (hslot : ∀ name, a.slot ≠ .variable name) :
      ∃ before after, a.whole.read m = .ok before ∧ a.whole.read m' = .ok after ∧
        after.text = before.text := by
    obtain ⟨-, before, after, hbefore, hafter, hsame, -⟩ :=
      write_back_keeps_text _ c a v m m m' haddress hread hwrite
    exact ⟨before, after, hbefore, hafter, hsame fun name hname => absurd hname (hslot name)⟩
  let c : Container := .property ⟨"name"⟩ (some (.named none .card (.literal "1" false)))
    (some (.mk .word (.ordinal .last) none none))
  exact ⟨_, _, rfl, rfl, rfl, rfl, rfl, rfl, hback c rfl rfl rfl nofun⟩

/-- A field that is called by the number of the field below it. -/
def StackSnapshot.misnumbered : StackSnapshot where
  backgrounds := [{ fields := [{ name := "2" }, {}] }]
  cards := [{}]

/-- The second character of a variable that is not set is read from the name of the variable and
written to nothing. And reading goes by one address: the field that is called what the first field
holds may be another one when the same text was put back there, but not in quotes any more. -/
theorem write_back_changes_text :
    (∃ m' : Machine,
      let m : Machine := { context := { frames := CallStack.empty.push {} } }
      let a : Address := ⟨.variable ⟨"foo"⟩, some (.ofText ⟨.char, .at 2, none⟩)⟩
      evalContainer (CardScript.invoke 0)
        (.var ⟨"foo"⟩ (some (.mk .char (.at (.literal "2" false)) none none))) m = .ok a m ∧
      a.read m = .ok (.ofText "o") ∧
      Action.edit (a.writing .into (.ofText "o")) m = .ok () m' ∧
      a.whole.read m = .ok (.ofText "foo") ∧ a.whole.read m' = .ok (.ofText "o")) ∧
    ∃ (s t : Stack) (m' : Machine), StackSnapshot.misnumbered.toStack = .ok s ∧
      s.setContents ⟨.part .field .background 101, some 103⟩ (.ofQuoted "2") = .ok t ∧
      let m : Machine := { world := { allStacks := [t] }, context := { stack := some 0 } }
      let field (name : Expr) : PartExpr := .named none .field name
      let c : Container :=
        .part (field (.part (field (.literal "1" false))))
          (some (.mk .char (.at (.literal "1" false)) none none))
      let a : Address :=
        ⟨.contents ⟨0, .part .field .background 101, some 103⟩, some (.ofText ⟨.char, .at 1, none⟩)⟩
      evalContainer (CardScript.invoke 0) c m = .ok a m ∧
      a.read m = .ok (.ofText "2") ∧
      Action.edit (a.writing .into (.ofText "2")) m = .ok () m' ∧
      readContainer (CardScript.invoke 0) c.whole m = .ok (.ofQuoted "2") m ∧
      readContainer (CardScript.invoke 0) c.whole m' = .ok .empty m' :=
  ⟨⟨_, rfl, rfl, rfl, rfl, rfl⟩, _, _, _, rfl, rfl, rfl, rfl, rfl, rfl, rfl⟩

end CardScript
