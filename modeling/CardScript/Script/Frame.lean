import CardScript.Part.Specifier
import CardScript.Stack.PropertyTable

/-!
# Frames

A frame holds what belongs to one handler being carried out. Open frames form a call stack that
knows how many they are; what each operation does is said of the list of frames.
-/

namespace CardScript

/-- A handler, function or loose statements being carried out. -/
structure Frame where
  message : String := ""
  me : Option Handle := none
  args : List Value := []
  /-- Variables by key. -/
  locals : List (String × Value) := []
  /-- Keys of the variables that are global here. -/
  globals : List String := []
  begunAt : Nat := 0
  /-- The visual effect for the next move. -/
  effect : Option String := none
deriving Inhabited

namespace Frame

def declares (f : Frame) (name : Symbol) : Bool :=
  f.globals.contains name.key

def local? (f : Frame) (name : Symbol) : Option Value :=
  (f.locals.find? (·.1 == name.key)).map (·.2)

def setLocal (f : Frame) (name : Symbol) (value : Value) : Frame :=
  { f with locals := PropertyTable.put name.key value f.locals }

def declare (f : Frame) (name : Symbol) : Frame :=
  if f.declares name then f else { f with globals := name.key :: f.globals }

end Frame

/-- Open frames with their number, and the greatest number there has been. -/
structure CallStack where
  /-- The frames, the innermost first. -/
  toList : List Frame
  depth : Nat
  /-- The greatest depth so far. Nothing reads it; it records how deep a run has gone. -/
  peak : Nat
  depth_eq : depth = toList.length
  depth_le_peak : depth ≤ peak

namespace CallStack

def empty : CallStack := ⟨[], 0, 0, rfl, Nat.le_refl 0⟩

instance : Inhabited CallStack := ⟨empty⟩

/-- The innermost frame. -/
def top? (s : CallStack) : Option Frame :=
  s.toList.head?

def push (f : Frame) (s : CallStack) : CallStack where
  toList := f :: s.toList
  depth := s.depth + 1
  peak := max s.peak (s.depth + 1)
  depth_eq := by simp [s.depth_eq]
  depth_le_peak := Nat.le_max_right ..

def pop (s : CallStack) : CallStack where
  toList := s.toList.tail
  depth := s.depth - 1
  peak := s.peak
  depth_eq := by simp [s.depth_eq]
  depth_le_peak := Nat.le_trans (Nat.sub_le ..) s.depth_le_peak

/-- Changes the innermost frame. -/
def modifyTop (change : Frame → Frame) (s : CallStack) : CallStack where
  toList := s.toList.modifyHead change
  depth := s.depth
  peak := s.peak
  depth_eq := by simp [s.depth_eq]
  depth_le_peak := s.depth_le_peak

@[simp] theorem toList_empty : empty.toList = [] := rfl

@[simp] theorem toList_push (f : Frame) (s : CallStack) : (s.push f).toList = f :: s.toList := rfl

@[simp] theorem toList_pop (s : CallStack) : s.pop.toList = s.toList.tail := rfl

@[simp] theorem toList_modifyTop (change : Frame → Frame) (s : CallStack) :
    (s.modifyTop change).toList = s.toList.modifyHead change := rfl

@[simp] theorem peak_push (f : Frame) (s : CallStack) :
    (s.push f).peak = max s.peak (s.depth + 1) := rfl

@[simp] theorem peak_pop (s : CallStack) : s.pop.peak = s.peak := rfl

@[simp] theorem peak_modifyTop (change : Frame → Frame) (s : CallStack) :
    (s.modifyTop change).peak = s.peak := rfl

end CallStack

end CardScript
