import CardScript.Syntax.Words

/-!
# Decoding scripts

The inverse of encoding, and a little more generous: options and fields with a usual value may be
missing. The depth of the tree bounds the recursion.
-/

namespace CardScript

open Json

mutual

def Expr.decode : (fuel : Nat) → Json → Option Expr
  | 0, _ => none
  | fuel + 1, j => do
    let (tag, content) ← j.variant?
    match tag with
    | "variable" => return .var (← Symbol.ofJson? content)
    | "part" => return .part (← PartExpr.decode fuel content)
    | _ =>
      let fields ← content.fields?
      match tag with
      | "literal" =>
        let text ← required? fields "text" string?
        let quoted ← defaulted? fields "quoted" false bool?
        return .literal text quoted
      | "binary" =>
        let op ← required? fields "op" BinaryOp.ofJson?
        let lhs ← required? fields "lhs" (Expr.decode fuel)
        let rhs ← required? fields "rhs" (Expr.decode fuel)
        return .binary op lhs rhs
      | "unary" =>
        let op ← required? fields "op" UnaryOp.ofJson?
        let operand ← required? fields "operand" (Expr.decode fuel)
        return .unary op operand
      | "chunk" =>
        let chunk ← required? fields "chunk" (ChunkExpr.decode fuel)
        let source ← required? fields "of" (Expr.decode fuel)
        return .chunk chunk source
      | "property" =>
        let name ← required? fields "property" Symbol.ofJson?
        let part ← optional? fields "part" (PartExpr.decode fuel)
        return .property name part
      | "call" =>
        let name ← required? fields "name" Symbol.ofJson?
        let args ← defaulted? fields "args" [] (listOf? (Expr.decode fuel))
        return .call name args
      | "count_chunks" =>
        let kind ← required? fields "kind" Chunk.Kind.ofJson?
        let source ← required? fields "of" (Expr.decode fuel)
        return .countChunks kind source
      | "count_parts" =>
        let type ← required? fields "ty" PartType.ofJson?
        let layer ← optional? fields "layer" Layer.ofJson?
        let owner ← optional? fields "owner" (PartExpr.decode fuel)
        return .countParts type layer owner
      | _ => none

def IndexExpr.decode : (fuel : Nat) → Json → Option IndexExpr
  | 0, _ => none
  | fuel + 1, j => do
    let (tag, content) ← j.variant?
    match tag with
    | "at" => return .at (← Expr.decode fuel content)
    | "ordinal" => return .ordinal (← Ordinal.ofJson? content)
    | _ => none

def ChunkExpr.decode : (fuel : Nat) → Json → Option ChunkExpr
  | 0, _ => none
  | fuel + 1, j => do
    let fields ← j.fields?
    let kind ← required? fields "kind" Chunk.Kind.ofJson?
    let start ← required? fields "start" (IndexExpr.decode fuel)
    let stop ← optional? fields "end" (IndexExpr.decode fuel)
    let outer ← optional? fields "within" (ChunkExpr.decode fuel)
    return .mk kind start stop outer

def PartExpr.decode : (fuel : Nat) → Json → Option PartExpr
  | 0, _ => none
  | fuel + 1, j => do
    let (tag, content) ← j.variant?
    match tag with
    | "me" => content.unit?.map fun _ => .me
    | "target" => content.unit?.map fun _ => .target
    | _ =>
      let fields ← content.fields?
      match tag with
      | "id" =>
        let layer ← optional? fields "layer" Layer.ofJson?
        let type ← required? fields "ty" PartType.ofJson?
        let id ← required? fields "id" (Expr.decode fuel)
        return .id layer type id
      | "named" =>
        let layer ← optional? fields "layer" Layer.ofJson?
        let type ← required? fields "ty" PartType.ofJson?
        let name ← required? fields "name" (Expr.decode fuel)
        return .named layer type name
      | "ordinal" =>
        let layer ← optional? fields "layer" Layer.ofJson?
        let type ← required? fields "ty" PartType.ofJson?
        let word ← required? fields "ordinal" Ordinal.ofJson?
        return .ordinal layer type word
      | "position" =>
        let type ← required? fields "ty" PartType.ofJson?
        let position ← required? fields "position" Position.ofJson?
        return .position type position
      | "stack" => return .stack (← optional? fields "name" (Expr.decode fuel))
      | "of" =>
        let part ← required? fields "part" (PartExpr.decode fuel)
        let owner ← required? fields "owner" (PartExpr.decode fuel)
        return .of part owner
      | _ => none

end

def Expr.ofJson? (j : Json) : Option Expr := Expr.decode j.depth j

def ChunkExpr.ofJson? (j : Json) : Option ChunkExpr := ChunkExpr.decode j.depth j

def IndexExpr.ofJson? (j : Json) : Option IndexExpr := IndexExpr.decode j.depth j

def PartExpr.ofJson? (j : Json) : Option PartExpr := PartExpr.decode j.depth j

def Container.ofJson? (j : Json) : Option Container := do
  let (tag, content) ← j.variant?
  match tag with
  | "message_box" => content.unit?.map fun _ => .messageBox
  | _ =>
    let fields ← content.fields?
    match tag with
    | "variable" =>
      let name ← required? fields "name" Symbol.ofJson?
      let chunk ← optional? fields "chunk" ChunkExpr.ofJson?
      return .var name chunk
    | "part" =>
      let part ← required? fields "part" PartExpr.ofJson?
      let chunk ← optional? fields "chunk" ChunkExpr.ofJson?
      return .part part chunk
    | "property" =>
      let name ← required? fields "property" Symbol.ofJson?
      let part ← optional? fields "part" PartExpr.ofJson?
      let chunk ← optional? fields "chunk" ChunkExpr.ofJson?
      return .property name part chunk
    | _ => none

def LoopKind.ofJson? (j : Json) : Option LoopKind := do
  let (tag, content) ← j.variant?
  match tag with
  | "forever" => content.unit?.map fun _ => .forever
  | "count" => return .count (← Expr.ofJson? content)
  | "while" => return .whileTrue (← Expr.ofJson? content)
  | "until" => return .untilTrue (← Expr.ofJson? content)
  | "with" =>
    let fields ← content.fields?
    let counter ← required? fields "variable" Symbol.ofJson?
    let first ← required? fields "from" Expr.ofJson?
    let final ← required? fields "to" Expr.ofJson?
    let down ← defaulted? fields "down" false bool?
    return .counting counter first final down
  | _ => none

/-- A command that carries nothing. -/
def Command.plain? : String → Option Command
  | "new_card" => some .newCard
  | "new_background" => some .newBackground
  | "exit_repeat" => some .exitRepeat
  | "next_repeat" => some .nextRepeat
  | "exit_handler" => some .exitHandler
  | "exit_to_hyper_card" => some .exitToHyperCard
  | "pass" => some .pass
  | _ => none

/-- A command without statements inside it. -/
def Command.simple? (tag : String) (fields : List (String × Json)) : Option Command := do
  match tag with
  | "put" =>
    let value ← required? fields "value" Expr.ofJson?
    let preposition ← required? fields "preposition" Preposition.ofJson?
    let target ← required? fields "target" Container.ofJson?
    return .put value preposition target
  | "get" => return .get (← required? fields "value" Expr.ofJson?)
  | "set" =>
    let property ← required? fields "property" Symbol.ofJson?
    let part ← optional? fields "part" PartExpr.ofJson?
    let value ← required? fields "value" Expr.ofJson?
    return .set property part value
  | "global" => return .global (← required? fields "names" (listOf? Symbol.ofJson?))
  | "add" =>
    let value ← required? fields "value" Expr.ofJson?
    let target ← required? fields "target" Container.ofJson?
    return .add value target
  | "subtract" =>
    let value ← required? fields "value" Expr.ofJson?
    let target ← required? fields "target" Container.ofJson?
    return .subtract value target
  | "multiply" =>
    let target ← required? fields "target" Container.ofJson?
    let value ← required? fields "value" Expr.ofJson?
    return .multiply target value
  | "divide" =>
    let target ← required? fields "target" Container.ofJson?
    let value ← required? fields "value" Expr.ofJson?
    return .divide target value
  | "go" => return .go (← optional? fields "destination" PartExpr.ofJson?)
  | "beep" => return .beep (← optional? fields "count" Expr.ofJson?)
  | "wait" =>
    let duration ← required? fields "duration" Expr.ofJson?
    let unit ← required? fields "unit" TimeUnit.ofJson?
    return .wait duration unit
  | "send" =>
    let message ← required? fields "message" Expr.ofJson?
    let target ← optional? fields "target" PartExpr.ofJson?
    return .send message target
  | "visual_effect" => return .visualEffect (← required? fields "effect" Expr.ofJson?)
  | "delete_card" => return .deleteCard (← optional? fields "card" PartExpr.ofJson?)
  | "message" =>
    let name ← required? fields "name" Symbol.ofJson?
    let args ← defaulted? fields "args" [] (listOf? Expr.ofJson?)
    return .message name args
  | "return" => return .giveBack (← optional? fields "value" Expr.ofJson?)
  | _ => none

mutual

def Command.decode : (fuel : Nat) → Json → Option Command
  | 0, _ => none
  | fuel + 1, j => do
    let (tag, content) ← j.variant?
    match Command.plain? tag with
    | some command => content.unit?.map fun _ => command
    | none =>
      let fields ← content.fields?
      match tag with
      | "if" =>
        let condition ← required? fields "condition" Expr.ofJson?
        let whenTrue ← required? fields "then_branch" (listOf? (Statement.decode fuel))
        let whenFalse ← defaulted? fields "else_branch" [] (listOf? (Statement.decode fuel))
        return .choose condition whenTrue whenFalse
      | "repeat" =>
        let kind ← required? fields "kind" LoopKind.ofJson?
        let body ← required? fields "body" (listOf? (Statement.decode fuel))
        return .loop kind body
      | _ => Command.simple? tag fields

def Statement.decode : (fuel : Nat) → Json → Option Statement
  | 0, _ => none
  | fuel + 1, j => do
    let fields ← j.fields?
    let span ← defaulted? fields "span" {} Span.ofJson?
    let command ← required? fields "command" (Command.decode fuel)
    return .mk span command

end

def Command.ofJson? (j : Json) : Option Command := Command.decode j.depth j

def Statement.ofJson? (j : Json) : Option Statement := Statement.decode j.depth j

def Handler.ofJson? (j : Json) : Option Handler := do
  let fields ← j.fields?
  let name ← required? fields "name" Symbol.ofJson?
  let params ← defaulted? fields "params" [] (listOf? Symbol.ofJson?)
  let body ← defaulted? fields "body" [] (listOf? Statement.ofJson?)
  let isFunction ← defaulted? fields "is_function" false bool?
  let span ← defaulted? fields "span" {} Span.ofJson?
  return { name, params, body, isFunction, span }

def Script.ofJson? (j : Json) : Option Script := do
  let fields ← j.fields?
  return { handlers := ← defaulted? fields "handlers" [] (listOf? Handler.ofJson?) }

end CardScript
