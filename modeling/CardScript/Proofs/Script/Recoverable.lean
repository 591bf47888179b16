import CardScript.Proofs.Script.Atomicity

/-!
# Failures that scripts can bring about

Whatever a script computes, looks up or writes fails, if it fails, with a failure of its own and
not with a defect of the library (`Recoverable`). Defects are left to what needs a frame and to a
stack whose current card is not among its cards.
-/

namespace CardScript

/-- A computation that does not end in a defect. -/
structure Recoverable {α : Type} (x : Except Failure α) : Prop where
  isInternal_eq : ∀ f, x = .error f → f.isInternal = false

variable {α β : Type}

@[simp] theorem recoverable_ok (a : α) : Recoverable (.ok a : Except Failure α) := ⟨nofun⟩

@[simp] theorem recoverable_pure (a : α) : Recoverable (pure a : Except Failure α) := ⟨nofun⟩

@[simp] theorem recoverable_error (f : Failure) :
    Recoverable (.error f : Except Failure α) ↔ f.isInternal = false := by
  constructor
  · exact fun h => h.isInternal_eq f rfl
  · refine fun h => ⟨?_⟩
    rintro _ ⟨⟩
    exact h

@[simp] theorem recoverable_throw (f : Failure) :
    Recoverable (throw f : Except Failure α) ↔ f.isInternal = false :=
  recoverable_error f

theorem Recoverable.bind {x : Except Failure α} {f : α → Except Failure β} (hx : Recoverable x)
    (hf : ∀ a, Recoverable (f a)) : Recoverable (x >>= f) := by
  cases x with
  | ok a => exact hf a
  | error f' => exact (recoverable_error f').2 ((recoverable_error f').1 hx)

theorem Recoverable.map {x : Except Failure α} (hx : Recoverable x) (f : α → β) :
    Recoverable (x >>= fun a => pure (f a)) :=
  hx.bind fun _ => recoverable_pure _

theorem Recoverable.ite {c : Prop} [Decidable c] {x y : Except Failure α} (hx : Recoverable x)
    (hy : Recoverable y) : Recoverable (if c then x else y) := by
  split
  · exact hx
  · exact hy

theorem Recoverable.foldlM {f : β → α → Except Failure β} (hf : ∀ b a, Recoverable (f b a))
    (l : List α) (b : β) : Recoverable (l.foldlM f b) := by
  induction l generalizing b with
  | nil => exact recoverable_pure b
  | cons a l ih =>
    rw [List.foldlM_cons]
    exact (hf b a).bind ih

theorem Recoverable.forM {f : α → Except Failure Unit} (hf : ∀ a, Recoverable (f a))
    (l : List α) : Recoverable (l.forM f) := by
  induction l with
  | nil => exact recoverable_pure ()
  | cons a l ih => exact (hf a).bind fun _ => ih

/-! ## Values -/

namespace Value

theorem toBoolean_recoverable (v : Value) : Recoverable v.toBoolean := by
  unfold toBoolean
  split <;> simp [Failure.isInternal]

theorem toInteger_recoverable (v : Value) : Recoverable v.toInteger := by
  unfold toInteger
  split <;> simp [Failure.isInternal]

theorem toReal_recoverable (v : Value) : Recoverable v.toReal := by
  unfold toReal
  split <;> simp [Failure.isInternal]

theorem operand_recoverable (operator : String) (side : Side) (v : Value) :
    Recoverable (operand operator side v) := by
  unfold operand
  split
  · exact recoverable_ok _
  · split <;> simp [Failure.isInternal]

theorem operands_recoverable (operator : String) (v w : Value) :
    Recoverable (operands operator v w) :=
  (operand_recoverable ..).bind fun _ => (operand_recoverable ..).map _

theorem ofFinite_recoverable (operator : String) (x : Float) :
    Recoverable (ofFinite operator x) := by
  unfold ofFinite
  split <;> simp [Failure.isInternal]

theorem divisionOperands_recoverable (operator : String) (v w : Value) :
    Recoverable (divisionOperands operator v w) := by
  refine (operands_recoverable ..).bind fun ab => ?_
  split
  split <;> simp [Failure.isInternal]

theorem arithmetic_recoverable (operator : String) (exact : Int → Int → Int)
    (real : Float → Float → Float) (v w : Value) :
    Recoverable (arithmetic operator exact real v w) := by
  refine (operands_recoverable ..).bind fun ab => ?_
  dsimp only
  split
  · split <;> simp [ofFinite_recoverable]
  · exact ofFinite_recoverable ..

theorem divide_recoverable (v w : Value) : Recoverable (v.divide w) := by
  refine (divisionOperands_recoverable ..).bind fun ab => ?_
  dsimp only
  split
  · split
    · split <;> simp [ofFinite_recoverable]
    · exact ofFinite_recoverable ..
  · exact ofFinite_recoverable ..

theorem div_recoverable (v w : Value) : Recoverable (v.div w) := by
  refine (divisionOperands_recoverable ..).bind fun ab => ?_
  dsimp only
  split
  · split <;> simp [ofFinite_recoverable]
  · exact ofFinite_recoverable ..

theorem mod_recoverable (v w : Value) : Recoverable (v.mod w) := by
  refine (divisionOperands_recoverable ..).bind fun ab => ?_
  dsimp only
  split
  · split <;> simp [ofFinite_recoverable]
  · exact ofFinite_recoverable ..

theorem negate_recoverable (v : Value) : Recoverable v.negate := by
  refine (operand_recoverable ..).bind fun n => ?_
  split
  · split <;> simp
  · exact recoverable_pure _

theorem and_recoverable (v w : Value) : Recoverable (v.and w) := by
  refine v.toBoolean_recoverable.bind fun b => ?_
  split
  · exact w.toBoolean_recoverable.map _
  · exact recoverable_pure _

theorem or_recoverable (v w : Value) : Recoverable (v.or w) := by
  refine v.toBoolean_recoverable.bind fun b => ?_
  split
  · exact recoverable_pure _
  · exact w.toBoolean_recoverable.map _

end Value

theorem BinaryOp.settledBy_recoverable (op : BinaryOp) (v : Value) :
    Recoverable (op.settledBy v) := by
  cases op with
  | and | or => exact v.toBoolean_recoverable.map _
  | _ => exact recoverable_ok _

theorem BinaryOp.apply_recoverable (op : BinaryOp) (v w : Value) :
    Recoverable (op.apply v w) := by
  cases op with
  | add | subtract | multiply => exact Value.arithmetic_recoverable ..
  | divide => exact v.divide_recoverable w
  | div => exact v.div_recoverable w
  | mod => exact v.mod_recoverable w
  | power => exact (Value.operands_recoverable ..).bind fun _ => Value.ofFinite_recoverable ..
  | isNotIn => exact (v.isIn w).toBoolean_recoverable.map _
  | and => exact v.and_recoverable w
  | or => exact v.or_recoverable w
  | _ => exact recoverable_ok _

theorem UnaryOp.apply_recoverable (op : UnaryOp) (v : Value) : Recoverable (op.apply v) := by
  cases op with
  | not => exact v.toBoolean_recoverable.map _
  | negate => exact v.negate_recoverable

theorem chunkNumber_recoverable (v : Value) : Recoverable (chunkNumber v) := by
  unfold chunkNumber
  split <;> simp [Failure.isInternal]

theorem idSpecifier_recoverable (layer : Option Layer) (type : PartType) (v : Value) :
    Recoverable (idSpecifier layer type v) := by
  unfold idSpecifier
  split
  · split <;> simp [Failure.isInternal]
  · simp [Failure.isInternal]

/-! ## Built-in functions -/

namespace Builtin

theorem number_recoverable (function : String) (v : Value) : Recoverable (number function v) := by
  unfold number
  split <;> simp [Failure.isInternal]

theorem absolute_recoverable (v : Value) : Recoverable (absolute v) := by
  unfold absolute
  split
  · split <;> simp
  · exact (number_recoverable ..).map _

theorem squareRoot_recoverable (v : Value) : Recoverable (squareRoot v) := by
  refine (number_recoverable ..).bind fun x => ?_
  split <;> simp [Failure.isInternal]

theorem numbers_recoverable (function : String) (args : List Value) :
    Recoverable (numbers function args) :=
  (Recoverable.forM (fun _ => (number_recoverable ..).map _) _).map _

theorem best_recoverable (function : String) (beats : Float → Float → Bool) (champion : Value)
    (values : List Value) : Recoverable (best function beats champion values) := by
  induction values generalizing champion with
  | nil => exact recoverable_ok _
  | cons v rest ih =>
    exact (number_recoverable ..).bind fun _ => (number_recoverable ..).bind fun _ => ih _

theorem extreme_recoverable (function : String) (beats : Float → Float → Bool)
    (args : List Value) : Recoverable (extreme function beats args) := by
  refine (numbers_recoverable ..).bind fun values => ?_
  split
  · simp [Failure.isInternal]
  · exact best_recoverable ..

theorem total_recoverable (values : List Value) : Recoverable (total values) :=
  Recoverable.foldlM (fun _ _ => Value.arithmetic_recoverable ..) _ _

theorem mean_recoverable (args : List Value) : Recoverable (mean args) := by
  refine (numbers_recoverable ..).bind fun values => ?_
  split
  · simp [Failure.isInternal]
  · exact (total_recoverable _).bind fun _ => Value.divide_recoverable ..

theorem randomUpTo_recoverable (source : Draws) (v : Value) :
    Recoverable (randomUpTo source v) := by
  refine v.toInteger_recoverable.bind fun upper => ?_
  split <;> simp [Failure.isInternal]

theorem characterOf_recoverable (v : Value) : Recoverable (characterOf v) := by
  refine v.toInteger_recoverable.bind fun code => ?_
  split <;> simp [Failure.isInternal]

theorem argument_recoverable (m : Machine) (v : Value) : Recoverable (argument m v) := by
  refine v.toInteger_recoverable.bind fun index => ?_
  split
  · simp
  · split <;> simp

theorem run_recoverable (b : Builtin) (m : Machine) (args : List Value) :
    Recoverable (b.run m args) := by
  cases b with
  | abs => exact absolute_recoverable _
  | round | trunc => exact (number_recoverable ..).map _
  | sqrt => exact squareRoot_recoverable _
  | min | max => exact extreme_recoverable ..
  | sum => exact (numbers_recoverable ..).bind fun _ => total_recoverable _
  | average => exact mean_recoverable _
  | random => exact randomUpTo_recoverable ..
  | numToChar => exact characterOf_recoverable _
  | param => exact argument_recoverable ..
  | _ => exact recoverable_ok _

theorem call_recoverable (b : Builtin) (name : String) (m : Machine) (args : List Value) :
    Recoverable (b.call name m args) := by
  unfold call
  split
  · exact run_recoverable ..
  · simp [Failure.isInternal]

end Builtin

/-! ## Parts and properties -/

theorem PropertyTable.get_recoverable (t : PropertyTable) (name : String) :
    Recoverable (t.get name) := by
  unfold get
  split <;> simp [Failure.isInternal]

theorem PropertyTable.set_recoverable (t : PropertyTable) (name : String) (value : Value) :
    Recoverable (t.set name value) := by
  refine Recoverable.map ?_ fun _ => t.define name value
  simp only [checkSet]
  split
  · simp [Failure.isInternal]
  · split <;> simp [Failure.isInternal]

theorem Part.text_recoverable (p : Part) (card : Option PartId) : Recoverable (p.text card) := by
  unfold text
  split
  · split
    · exact recoverable_ok _
    · exact PropertyTable.get_recoverable ..
  · exact PropertyTable.get_recoverable ..

theorem Part.setText_recoverable (p : Part) (card : Option PartId) (value : Value) :
    Recoverable (p.setText card value) := by
  have hshared : Recoverable (p.setSharedText value) := (PropertyTable.set_recoverable ..).map _
  rw [setText_eq]
  split
  · split
    · exact recoverable_ok _
    · exact hshared
  · exact hshared

namespace Stack

variable (s : Stack)

theorem tableOf_recoverable (r : PartRef) : Recoverable (s.tableOf r) := by
  unfold tableOf
  split <;> simp [gone, Failure.isInternal]

theorem scriptOf_recoverable (r : PartRef) : Recoverable (s.scriptOf r) := by
  simp only [scriptOf]
  split <;> simp [gone, Failure.isInternal]

theorem nameOf_recoverable (r : PartRef) : Recoverable (s.nameOf r) :=
  (s.tableOf_recoverable r).map _

theorem numberOf_recoverable (r : PartRef) : Recoverable (s.numberOf r) := by
  simp only [numberOf]
  split <;> simp [gone, Failure.isInternal]

theorem contents_recoverable (f : Found) : Recoverable (s.contents f) := by
  unfold contents
  split
  · split
    · exact Part.text_recoverable ..
    · simp [gone, Failure.isInternal]
  · simp [Failure.isInternal]

theorem setContents_recoverable (f : Found) (value : Value) :
    Recoverable (s.setContents f value) := by
  rw [setContents_eq]
  split
  · split
    · exact (Part.setText_recoverable ..).map _
    · simp [gone, Failure.isInternal]
  · simp [Failure.isInternal]

theorem getProperty_recoverable (f : Found) (name : String) :
    Recoverable (s.getProperty f name) := by
  simp only [getProperty]
  split
  · exact recoverable_ok _
  · exact (s.numberOf_recoverable _).map _
  · exact (s.nameOf_recoverable _).map _
  · exact (s.nameOf_recoverable _).map _
  · exact recoverable_ok _
  · exact recoverable_ok _
  · exact recoverable_ok _
  · split
    · exact s.contents_recoverable f
    · exact (s.tableOf_recoverable _).bind fun _ => PropertyTable.get_recoverable ..

theorem setProperty_recoverable (f : Found) (name : String) (value : Value) :
    Recoverable (s.setProperty f name value) := by
  simp only [setProperty_eq]
  split
  · simp [Failure.isInternal]
  split
  · exact s.setContents_recoverable f value
  · exact (s.tableOf_recoverable _).bind fun _ => (PropertyTable.set_recoverable ..).map _

theorem showCard_recoverable (id : PartId) : Recoverable (s.showCard id) := by
  rw [showCard_eq]
  split <;> simp [Failure.isInternal]

theorem deleteCard_recoverable (id : PartId) : Recoverable (s.deleteCard id) := by
  rw [deleteCard_eq]
  split
  · split <;> simp [Failure.isInternal]
  · simp [Failure.isInternal]

/-- A new card lies on the background of the current one, which has to be there. -/
theorem newCard_recoverable (h : (s.card? s.currentCard).isSome) : Recoverable s.newCard := by
  rw [newCard_eq]
  split
  next hnone =>
    rw [hnone] at h
    cases h
  next => exact recoverable_ok _

end Stack

/-! ## Addresses -/

namespace Scope

variable {s : Stack} {draws : Draws} {missing : Failure} {spec : Specifier}

theorem currentIndex_recoverable (seenFrom : PartId) :
    Recoverable (currentIndex s seenFrom) := by
  unfold currentIndex
  split <;> simp [Failure.isInternal]

theorem findPart_recoverable (hmissing : missing.isInternal = false) :
    Recoverable (findPart draws parts kind layer context missing spec) := by
  unfold findPart
  split <;> simp [hmissing]

theorem findCard_recoverable (hmissing : missing.isInternal = false) :
    Recoverable (findCard s draws seenFrom missing spec) := by
  unfold findCard
  split
  · refine (currentIndex_recoverable seenFrom).bind fun index =>
      (recoverable_pure _).bind fun card? => ?_
    dsimp only
    split <;> simp [hmissing]
  · refine (recoverable_pure _).bind fun card? => ?_
    dsimp only
    split <;> simp [hmissing]

theorem findBackground_recoverable (hmissing : missing.isInternal = false) :
    Recoverable (findBackground s draws seenFrom missing spec) := by
  unfold findBackground
  split
  · refine (currentIndex_recoverable seenFrom).bind fun index => ?_
    dsimp only
    split <;> simp [hmissing]
  · split <;> simp [hmissing]

theorem findOnBackground_recoverable (hmissing : missing.isInternal = false) :
    Recoverable (findOnBackground s draws b context missing spec) := by
  unfold findOnBackground
  split
  · split <;> simp [hmissing]
  · split
    · simp [hmissing]
    · exact findPart_recoverable hmissing
  · simp [hmissing]

theorem findOnCard_recoverable (hmissing : missing.isInternal = false) :
    Recoverable (findOnCard s draws c missing spec) := by
  unfold findOnCard
  split
  · split <;> simp [hmissing]
  · split
    · exact findPart_recoverable hmissing
    · split
      · exact findOnBackground_recoverable hmissing
      · simp [hmissing]

theorem findInStack_recoverable (hmissing : missing.isInternal = false) :
    Recoverable (findInStack s draws seenFrom missing spec) := by
  unfold findInStack
  split
  · exact recoverable_ok _
  · exact findCard_recoverable hmissing
  · exact findBackground_recoverable hmissing
  all_goals
    refine (currentIndex_recoverable seenFrom).bind fun index => ?_
    split
    · exact findOnCard_recoverable hmissing
    · simp [hmissing]

theorem ofOwner_recoverable (hmissing : missing.isInternal = false) :
    Recoverable (ofOwner s seenFrom owner missing) := by
  unfold ofOwner
  split
  · exact recoverable_ok _
  · split <;> simp [hmissing]
  · split <;> simp [hmissing]
  · simp [hmissing]

theorem find_recoverable (describe : Handle → String) (scope : Scope) :
    Recoverable (find s describe draws scope spec) := by
  induction spec generalizing draws scope with
  | of part owner ihPart ihOwner =>
    exact (ihOwner _).bind fun _ => (ofOwner_recoverable rfl).bind fun _ => ihPart _
  | resolved h => exact recoverable_ok _
  | stack name => exact recoverable_ok _
  | _ =>
    cases scope with
    | stack current => exact findInStack_recoverable rfl
    | card c => exact findOnCard_recoverable rfl
    | background b context => exact findOnBackground_recoverable (s := s) rfl

end Scope

namespace Machine

variable (m : Machine)

theorem currentStack_recoverable : Recoverable m.currentStack := by
  unfold currentStack
  split <;> simp [Failure.isInternal]

theorem currentCard_recoverable : Recoverable m.currentCard :=
  m.currentStack_recoverable.map _

theorem checkAbort_recoverable : Recoverable m.checkAbort := by
  unfold checkAbort
  split <;> simp [Failure.isInternal]

theorem pushFrame_recoverable (message : String) (me : Option Handle) (args : List Value) :
    Recoverable (m.pushFrame message me args) := by
  rw [pushFrame_eq]
  split <;> simp [Failure.isInternal]

theorem stackFor_recoverable (spec : Specifier) : Recoverable (m.stackFor spec) := by
  induction spec with
  | of part owner _ ih => exact ih
  | resolved h => exact recoverable_ok _
  | stack name =>
    cases name with
    | none => exact m.currentStack_recoverable
    | some name =>
      simp only [stackFor]
      split <;> simp [Failure.isInternal]
  | _ => exact m.currentStack_recoverable

theorem resolve_recoverable (spec : Specifier) : Recoverable (m.resolve spec) :=
  (m.stackFor_recoverable spec).bind fun _ => (Scope.find_recoverable ..).map _

end Machine

/-! ## The world -/

namespace World

variable (w : World)

theorem property_recoverable (name : String) : Recoverable (w.property name) := by
  unfold property
  split
  · exact recoverable_ok _
  · exact PropertyTable.get_recoverable ..

theorem setProperty_recoverable (name : String) (value : Value) :
    Recoverable (w.setProperty name value) := by
  rw [setProperty_eq]
  split
  · simp [Failure.isInternal]
  split
  · simp [Failure.isInternal]
  · exact (PropertyTable.set_recoverable ..).map _

end World

/-! ## Containers -/

theorem Chunk.Level.put_recoverable (l : Level Place) (delimiter cs : List Char)
    (preposition : Preposition) (new : List Char) :
    Recoverable (l.put delimiter cs preposition new) := by
  refine .ite (.ite (recoverable_ok _) ((recoverable_error _).2 rfl)) (.ite ?_ (.ite ?_ ?_))
  · exact .ite (recoverable_ok _) (recoverable_ok _)
  · exact .ite (recoverable_ok _) (recoverable_ok _)
  · exact recoverable_ok _

theorem Chunk.put_recoverable (chunk : Chunk Place) (delimiter cs : List Char)
    (preposition : Preposition) (new : List Char) :
    Recoverable (chunk.put delimiter cs preposition new) := by
  induction chunk generalizing preposition new with
  | ofText l => exact l.put_recoverable ..
  | within l outer ih => exact (l.put_recoverable ..).bind fun _ => ih ..

theorem Slot.current_recoverable (m : Machine) (slot : Slot) : Recoverable (slot.current m) := by
  cases slot with
  | «variable» name => exact recoverable_ok _
  | contents part => exact Stack.contents_recoverable ..
  | property name part =>
    cases part with
    | some part => exact Stack.getProperty_recoverable ..
    | none => exact World.property_recoverable ..
  | messageBox => exact recoverable_ok _

theorem Slot.read_recoverable (m : Machine) (slot : Slot) : Recoverable (slot.read m) := by
  cases slot with
  | «variable» name => exact recoverable_ok _
  | contents part => exact Slot.current_recoverable m (.contents part)
  | property name part => exact Slot.current_recoverable m (.property name part)
  | messageBox => exact recoverable_ok _

namespace Address

variable (a : Address) (m : Machine)

theorem checkChunk_recoverable : Recoverable (a.checkChunk m) := by
  unfold checkChunk
  split
  · split <;> simp [Failure.isInternal]
  · exact recoverable_ok _

theorem read_recoverable : Recoverable (a.read m) := by
  refine (a.checkChunk_recoverable m).bind fun _ => (a.slot.read_recoverable m).bind fun _ => ?_
  split <;> simp

theorem updated_recoverable (preposition : Preposition) (value : Value) :
    Recoverable (a.updated m preposition value) := by
  unfold updated
  split
  · exact (a.slot.current_recoverable m).bind fun _ => (Chunk.put_recoverable ..).map _
  · exact recoverable_ok _
  · exact (a.slot.current_recoverable m).map _
  · exact (a.slot.current_recoverable m).map _

end Address

end CardScript
