import CardScript.Chunk.Basic

/-!
# Failures

Why a script cannot go on. Each cause is a constructor and `Failure.message` is its wording. On
its way out a failure becomes a `ScriptError`, which also says where it happened; the innermost
position and the innermost handler are kept.
-/

namespace CardScript

/-- A position in the text of a script. -/
structure Span where
  line : Nat := 0
  column : Nat := 0
deriving Repr, DecidableEq, Inhabited

inductive Side where
  | left
  | right
  | only
deriving Repr, DecidableEq

/-- What is wrong with a well-formed script. -/
inductive Complaint where
  | worded (message : String)
  | notInteger (found : String)
  | notNumber (found : String)
  | notBoolean (found : String)
  | badOperand (side : Side) (operator found : String)
  | divisionByZero
  | tooLarge (operator : String)
  | tooMuchRecursion
  | aborted
  | noStackOpen
  | noMe
  | noTarget
  | missingBackground (card : String) (index : Nat)
  | lastCard
  | cannotSet (property : String)
  | emptyItemDelimiter
  | noContents (part : String)
  | notWritable (part : String)
  | notDeletable (part : String)
  | notCountable (type owner : String)
  | neverHeardOf (message : String)
  | emptyMessage
  | noSuchFunction (name : String)
  | wrongArity (function expected : String) (received : Nat)
  | notNumberFor (function found : String)
  | notListFor (function : String)
  | negativeRoot
  | badRandomBound (found : Int)
  | notCharacterCode (found : Int)
deriving Repr, DecidableEq

/-- What is wrong with a chunk. -/
inductive ChunkComplaint where
  | worded (message : String)
  | beforeFirst (kind : Chunk.Kind) (index : Int)
  | notChunkNumber (found : String)
  | noText (part : String)
deriving Repr, DecidableEq

/-- A broken promise of the library itself. -/
inductive Defect where
  | worded (message : String)
  | noFrame
  | strayCurrentCard
deriving Repr, DecidableEq

inductive Failure where
  | malformed (message : String)
  | semantic (complaint : Complaint)
  | noSuchPart (address : String)
  | noSuchProperty (name : String)
  | chunkRange (complaint : ChunkComplaint)
  | internal (defect : Defect)
deriving Repr, DecidableEq

def Side.word : Side → String
  | .left => " left"
  | .right => " right"
  | .only => ""

def Complaint.message : Complaint → String
  | .worded message => message
  | .notInteger found => s!"Expected integer here but found \"{found}\"."
  | .notNumber found => s!"Expected number here but found \"{found}\"."
  | .notBoolean found => s!"Expected true or false here but found \"{found}\"."
  | .badOperand side operator found =>
    s!"Expected a number as the{side.word} operand of \"{operator}\" but found \"{found}\"."
  | .divisionByZero => "Can't divide by zero."
  | .tooLarge operator => s!"The result of \"{operator}\" is too large to represent."
  | .tooMuchRecursion => "Too much recursion."
  | .aborted => "Script aborted."
  | .noStackOpen => "No stack is open."
  | .noMe => "There is no \"me\" here."
  | .noTarget => "There is no target."
  | .missingBackground card index => s!"Card \"{card}\" refers to missing background {index}."
  | .lastCard => "Can't delete the last card of a stack."
  | .cannotSet property => s!"Can't set property {property}."
  | .emptyItemDelimiter => "The itemDelimiter can't be empty."
  | .noContents part => s!"Can't get the contents of {part}."
  | .notWritable part => s!"Can't put into {part}."
  | .notDeletable part => s!"Can't delete {part}."
  | .notCountable type owner => s!"Can't count the {type}s of {owner}."
  | .neverHeardOf message => s!"Never heard of {message}."
  | .emptyMessage => "Can't send an empty message."
  | .noSuchFunction name => s!"No such function {name}."
  | .wrongArity function expected received =>
    s!"{function} expects {expected} but received {received}."
  | .notNumberFor function found => s!"{function} expects a number but found \"{found}\"."
  | .notListFor function => s!"{function} expects a list of numbers."
  | .negativeRoot => "Can't take the square root of a negative number."
  | .badRandomBound found => s!"random expects a positive upper bound but found {found}."
  | .notCharacterCode found => s!"{found} is not a character code."

def ChunkComplaint.message : ChunkComplaint → String
  | .worded message => message
  | .beforeFirst kind index => s!"Can't put into {kind.name} {index}."
  | .notChunkNumber found => s!"Expected a chunk number but found \"{found}\"."
  | .noText part => s!"Can't take a chunk of {part}."

def Defect.message : Defect → String
  | .worded message => message
  | .noFrame => "no active frame"
  | .strayCurrentCard => "current card is not part of its stack"

namespace Failure

def message : Failure → String
  | malformed message => message
  | semantic complaint => complaint.message
  | noSuchPart address => s!"No such {address}."
  | noSuchProperty name => s!"No such property \"{name}\"."
  | chunkRange complaint => complaint.message
  | internal defect => s!"Internal error: {defect.message}"

/-- The stable code of each kind of failure. -/
def code : Failure → String
  | malformed _ => "E101"
  | semantic _ => "E102"
  | noSuchPart _ => "E103"
  | noSuchProperty _ => "E104"
  | chunkRange _ => "E105"
  | internal _ => "E199"

def isInternal : Failure → Bool
  | internal _ => true
  | _ => false

/-- What is computed in two steps succeeds if both do. -/
theorem bind_eq_ok {α β : Type} {x : Except Failure α} {f : α → Except Failure β} {b : β} :
    (x >>= f) = .ok b ↔ ∃ a, x = .ok a ∧ f a = .ok b := by
  cases x with
  | ok a =>
    constructor
    · exact fun h => ⟨a, rfl, h⟩
    · rintro ⟨_, ⟨⟩, h⟩
      exact h
  | error f' =>
    constructor
    · exact fun h => nomatch h
    · rintro ⟨_, ⟨⟩, _⟩

/-- What is computed in two steps fails if one of them does. -/
theorem bind_eq_error {α β : Type} {x : Except Failure α} {f : α → Except Failure β}
    {e : Failure} :
    (x >>= f) = .error e ↔ x = .error e ∨ ∃ a, x = .ok a ∧ f a = .error e := by
  cases x with
  | ok a =>
    constructor
    · exact fun h => .inr ⟨a, rfl, h⟩
    · rintro (h | ⟨_, ⟨⟩, h⟩)
      · cases h
      · exact h
  | error f' =>
    constructor
    · intro h
      cases h
      exact .inl rfl
    · rintro (h | ⟨_, h, _⟩)
      · cases h
        rfl
      · cases h

/-- What every step keeps holds at the end of a fold that does not fail. -/
theorem foldlM_keeps {α β : Type} {f : β → α → Except Failure β} {P : β → Prop}
    (step : ∀ b a b', P b → f b a = .ok b' → P b') {l : List α} {b b' : β}
    (hb : P b) (h : l.foldlM f b = .ok b') : P b' := by
  induction l generalizing b with
  | nil =>
    cases h
    exact hb
  | cons a l ih =>
    rw [List.foldlM_cons] at h
    obtain ⟨b₁, h₁, h⟩ := bind_eq_ok.1 h
    exact ih (step b a b₁ hb h₁) h

end Failure

/-- A failure with the place it came from. -/
structure ScriptError where
  failure : Failure
  span : Option Span := none
  handler : Option String := none
deriving Repr, DecidableEq

namespace ScriptError

/-- Adds a position unless a more precise one is known. -/
def atSpan (e : ScriptError) (span : Span) : ScriptError :=
  { e with span := e.span.or (some span) }

/-- Adds the handler the error left unless an inner one is known. -/
def inHandler (e : ScriptError) (name : String) : ScriptError :=
  { e with handler := e.handler.or (some name) }

/-- The message with handler and position. -/
def display (e : ScriptError) : String :=
  let handler := match e.handler with
    | some name => s!" (in {name})"
    | none => ""
  let place := match e.span with
    | some span => s!" at line {span.line}, column {span.column}"
    | none => ""
  e.failure.message ++ handler ++ place

end ScriptError

end CardScript
