import CardScript.Chunk.Pinning
import CardScript.Script.Message
import CardScript.Value.Comparison

/-!
# Expressions

Evaluating expressions, chunks and addresses of parts. Operands are evaluated from left to right;
of an address, the owner comes first, and of a chunk, the chunk around it.
-/

namespace CardScript

namespace BinaryOp

/-- `and` and `or` may be settled by their left operand. -/
def settledBy (op : BinaryOp) (left : Value) : Except Failure (Option Value) :=
  match op with
  | and => do return if ← left.toBoolean then none else some (.ofBool false)
  | or => do return if ← left.toBoolean then some (.ofBool true) else none
  | _ => .ok none

def apply (op : BinaryOp) (left right : Value) : Except Failure Value :=
  match op with
  | add => left.add right
  | subtract => left.subtract right
  | multiply => left.multiply right
  | divide => left.divide right
  | div => left.div right
  | mod => left.mod right
  | power => left.power right
  | concat => .ok (left.concat right)
  | concatSpaced => .ok (left.concatSpaced right)
  | equal => .ok (left.equals right)
  | notEqual => .ok (left.notEquals right)
  | less => .ok (left.less right)
  | greater => .ok (left.greater right)
  | lessEqual => .ok (left.lessOrEqual right)
  | greaterEqual => .ok (left.greaterOrEqual right)
  | contains => .ok (left.contains right)
  | isIn => .ok (left.isIn right)
  | isNotIn => (left.isIn right).not
  | and => left.and right
  | or => left.or right

end BinaryOp

def UnaryOp.apply (op : UnaryOp) (v : Value) : Except Failure Value :=
  match op with
  | not => v.not
  | negate => v.negate

/-- How many parts of a type an owner has, if it can have any. -/
def Stack.countParts? (s : Stack) (type : PartType) (layer : Option Layer) (owner : PartRef) :
    Option Nat :=
  let ofType (parts : List Part) : Nat := (parts.filter fun p => p.kind.type == type).length
  match type, owner with
  | .card, .stack => some s.cards.length
  | .card, .background id => some (s.cardsOf id).length
  | .background, .stack => some s.backgroundsInOrder.length
  | .button, .card id | .field, .card id => do
    let c ← s.card? id
    match layer.getD type.usualLayer with
    | .card => return ofType c.parts
    | .background => return ofType (← s.background? c.background).parts
  | .button, .background id | .field, .background id => do
    return ofType (← s.background? id).parts
  | _, _ => none

/-- Where parts are counted that are said to be of nothing. -/
def usualOwner (type : PartType) : Action Handle :=
  match type with
  | .card | .background => do return .ofStack (← Action.demand (·.currentStack))
  | _ => Action.demand (·.currentCard)

def countParts (type : PartType) (layer : Option Layer) (owner : Handle) : Action Value := do
  let w ← Action.ask (·.world)
  match (w.stack owner.stack).countParts? type layer owner.found.part with
  | some n => return .ofInt n
  | none => Action.fail (.semantic (.notCountable type.name (w.describe owner)))

/-- Settles a chunk of a text and uses up its draws. -/
def pinChunk (chunk : Chunk Chunk.Index) (text : List Char) : Action (Chunk Chunk.Place) := do
  let w ← Action.ask (·.world)
  Action.changeWorld fun w => { w with draws := w.draws.skip chunk.draws }
  return chunk.pin w.draws w.itemDelimiter text

/-- A value as the index of a chunk. -/
def chunkNumber (v : Value) : Except Failure Chunk.Index :=
  match v.whole? with
  | some n => .ok (.place (.at n))
  | none => .error (.chunkRange (.notChunkNumber v.text))

/-- The address of a part by its identifier. -/
def idSpecifier (layer : Option Layer) (type : PartType) (v : Value) : Except Failure Specifier :=
  match v.whole? with
  | some n =>
    if 0 ≤ n then .ok (.id layer type n.toNat)
    else .error (.noSuchPart s!"{type.name} id {v.text}")
  | none => .error (.noSuchPart s!"{type.name} id {v.text}")

/-- The address of a part by its name, or by its number if that is not in quotes. -/
def namedSpecifier (layer : Option Layer) (type : PartType) (v : Value) : Specifier :=
  match v.quoted, v.whole? with
  | false, some n => .number layer type n
  | _, _ => .name layer type v.text v.quoted

mutual

def evalExpr (invoke : Invoke) : Expr → Action Value
  | .literal text quoted => pure (if quoted then .ofQuoted text else .ofText text)
  | .var name => Action.ask fun m => m.valueOf name
  | .binary op lhs rhs => do
    let left ← evalExpr invoke lhs
    match ← Action.ofExcept (op.settledBy left) with
    | some v => return v
    | none =>
      let right ← evalExpr invoke rhs
      Action.ofExcept (op.apply left right)
  | .unary op operand => do
    let v ← evalExpr invoke operand
    Action.ofExcept (op.apply v)
  | .chunk c source => do
    let whole ← evalExpr invoke source
    let chunk ← evalChunk invoke c
    let pinned ← pinChunk chunk whole.text.toList
    let delimiter ← Action.ask (·.world.itemDelimiter)
    return .ofText (String.ofList (pinned.get delimiter whole.text.toList))
  | .property name none => Action.demand fun m => m.world.property name.spelling
  | .property name (some p) => do
    let h ← Action.resolve (← evalPart invoke p)
    Action.demand fun m => m.world.partProperty h name.spelling
  | .part p => do
    let h ← Action.resolve (← evalPart invoke p)
    Action.demand fun m => m.world.contents h
  | .call name args => do
    let args ← evalArgs invoke args
    callFunction invoke name.spelling args
  | .countChunks kind source => do
    let whole ← evalExpr invoke source
    let delimiter ← Action.ask (·.world.itemDelimiter)
    return .ofInt (Chunk.count kind delimiter whole.text.toList)
  | .countParts type layer none => do
    let h ← usualOwner type
    countParts type layer h
  | .countParts type layer (some owner) => do
    let h ← Action.resolve (← evalPart invoke owner)
    countParts type layer h

def evalArgs (invoke : Invoke) : List Expr → Action (List Value)
  | [] => pure []
  | e :: rest => do
    let v ← evalExpr invoke e
    let vs ← evalArgs invoke rest
    return v :: vs

def evalIndex (invoke : Invoke) : IndexExpr → Action Chunk.Index
  | .at number => do
    let v ← evalExpr invoke number
    Action.ofExcept (chunkNumber v)
  | .ordinal word => pure (.ofOrdinal word)

def evalStop (invoke : Invoke) : Option IndexExpr → Action (Option Chunk.Index)
  | none => pure none
  | some i => do return some (← evalIndex invoke i)

def evalChunk (invoke : Invoke) : ChunkExpr → Action (Chunk Chunk.Index)
  | .mk kind start stop none => do
    let start ← evalIndex invoke start
    let stop ← evalStop invoke stop
    return .ofText { kind, start, stop }
  | .mk kind start stop (some outer) => do
    let outer ← evalChunk invoke outer
    let start ← evalIndex invoke start
    let stop ← evalStop invoke stop
    return .within { kind, start, stop } outer

def evalPart (invoke : Invoke) : PartExpr → Action Specifier
  | .id layer type id => do
    let v ← evalExpr invoke id
    Action.ofExcept (idSpecifier layer type v)
  | .named layer type name => do
    let v ← evalExpr invoke name
    return namedSpecifier layer type v
  | .ordinal layer type word => pure (.ordinal layer type word)
  | .position type position => pure (.position type position)
  | .stack none => pure (.stack none)
  | .stack (some name) => do
    let v ← evalExpr invoke name
    return .stack (some v.text)
  | .of part owner => do
    let owner ← evalPart invoke owner
    let part ← evalPart invoke part
    return .of part owner
  | .me =>
    Action.demand fun m =>
      match m.me? with
      | some h => .ok (.resolved h)
      | none => .error (.semantic .noMe)
  | .target =>
    Action.demand fun m =>
      match m.context.target with
      | some h => .ok (.resolved h)
      | none => .error (.semantic .noTarget)

end

/-- The part that an address in a script denotes. -/
def resolvePart (invoke : Invoke) (p : PartExpr) : Action Handle := do
  Action.resolve (← evalPart invoke p)

end CardScript
