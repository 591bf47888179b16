import CardScript.Chunk.Writing
import CardScript.Script.Expression

/-!
# Containers

A container is resolved once to an address, through which it is then read and written at one and
the same place.
-/

namespace CardScript

/-- What is read or written as a whole. -/
inductive Slot where
  | variable (name : Symbol)
  | contents (part : Handle)
  | property (name : Symbol) (part : Option Handle)
  | messageBox
deriving Repr, DecidableEq, Inhabited

/-- A slot, or a chunk of what it holds. -/
structure Address where
  slot : Slot
  chunk : Option (Chunk Chunk.Place) := none
deriving Repr, DecidableEq

namespace Slot

/-- What a slot holds before it is written; a variable that was never set is empty. -/
def current (m : Machine) : Slot → Except Failure Value
  | .variable name => .ok ((m.lookup? name).getD .empty)
  | contents part => m.world.contents part
  | property name (some part) => m.world.partProperty part name.spelling
  | property name none => m.world.property name.spelling
  | messageBox => .ok .empty

/-- What a slot reads as. -/
def read (m : Machine) : Slot → Except Failure Value
  | .variable name => .ok (m.valueOf name)
  | slot => slot.current m

/-- Has the message box show a text. -/
def showingMessage (text : String) : Editing Machine Unit :=
  modify fun m => { m with world := { m.world with desktop := m.world.desktop.showMessage text } }

/-- Stores a value as the whole of what a slot holds. -/
def storing (value : Value) : Slot → Editing Machine Unit
  | .variable name => Machine.settingVariable name value
  | contents part => Machine.onStack part.stack (Stack.settingContents part.found value)
  | property name (some part) =>
    Machine.onStack part.stack (Stack.settingProperty part.found name.spelling value)
  | property name none => Machine.onWorld (World.settingProperty name.spelling value)
  | messageBox => showingMessage value.text

end Slot

namespace Address

/-- Only a part that holds text has chunks. -/
def checkChunk (a : Address) (m : Machine) : Except Failure Unit :=
  match a.slot, a.chunk with
  | .contents part, some _ =>
    if part.holdsText then .ok () else .error (.chunkRange (.noText (m.world.describe part)))
  | _, _ => .ok ()

def read (a : Address) (m : Machine) : Except Failure Value := do
  a.checkChunk m
  let whole ← a.slot.read m
  match a.chunk with
  | some chunk =>
    return .ofText (String.ofList (chunk.get m.world.itemDelimiter whole.text.toList))
  | none => return whole

/-- The value to be stored so that the address holds, or starts or ends with, a new one. -/
def updated (a : Address) (m : Machine) (preposition : Preposition) (value : Value) :
    Except Failure Value :=
  match a.chunk, preposition with
  | some chunk, _ => do
    let whole ← a.slot.current m
    let cs ← chunk.put m.world.itemDelimiter whole.text.toList preposition value.text.toList
    return .ofText (String.ofList cs)
  | none, .into => .ok value
  | none, .before => do return value.concat (← a.slot.current m)
  | none, .after => do return (← a.slot.current m).concat value

/-- Writes to an address. The message box shows whatever is put there. -/
def writing (a : Address) (preposition : Preposition) (value : Value) : Editing Machine Unit :=
  match a.slot with
  | .messageBox => Slot.showingMessage value.text
  | slot => do
    Editing.demand a.checkChunk
    let whole ← Editing.demand fun m => a.updated m preposition value
    slot.storing whole

end Address

/-- Settles the chunk of a slot; chance is asked only where it is needed. -/
def settleChunk (slot : Slot) (chunk : Chunk Chunk.Index) : Action (Chunk Chunk.Place) :=
  match chunk.settled? with
  | some settled => pure settled
  | none => do
    let whole ← Action.demand slot.current
    pinChunk chunk whole.text.toList

def addressOf (invoke : Invoke) (slot : Slot) : Option ChunkExpr → Action Address
  | none => pure { slot }
  | some c => do
    let chunk ← evalChunk invoke c
    return { slot, chunk := some (← settleChunk slot chunk) }

/-- The address a container denotes. -/
def evalContainer (invoke : Invoke) : Container → Action Address
  | .var name chunk => addressOf invoke (.variable name) chunk
  | .part p chunk => do
    let h ← resolvePart invoke p
    addressOf invoke (.contents h) chunk
  | .property name none chunk => addressOf invoke (.property name none) chunk
  | .property name (some p) chunk => do
    let h ← resolvePart invoke p
    addressOf invoke (.property name (some h)) chunk
  | .messageBox => pure { slot := .messageBox }

/-- What a container reads as. -/
def readContainer (invoke : Invoke) (c : Container) : Action Value := do
  let address ← evalContainer invoke c
  Action.demand address.read

end CardScript
