/-!
# Scopes

The names that are visible at a point of a function stand in frames, one for each block around the
point, the innermost first. A frame also says whether the point is in a loop. A name is visible when
some frame has it; a declaration goes into the innermost frame.
-/

namespace FrontEnd

/-- **The names of one block**, and whether it is the body of a loop or stands in one. -/
structure Frame where
  names : List String
  inLoop : Bool
deriving DecidableEq, Repr

namespace Frame

/-- A frame without names. -/
def blank (inLoop : Bool) : Frame :=
  ⟨[], inLoop⟩

/-- A frame with a further name. -/
def declare (frame : Frame) (name : String) : Frame :=
  { frame with names := name :: frame.names }

/-- Whether a frame has a name. -/
def contains (frame : Frame) (name : String) : Bool :=
  frame.names.contains name

end Frame

/-- **The frames around a point**, the innermost first. -/
structure ScopeStack where
  frames : List Frame
deriving DecidableEq, Repr

namespace ScopeStack

/-- No block is open. -/
def empty : ScopeStack :=
  ⟨[]⟩

/-- The number of open blocks. -/
def depth (s : ScopeStack) : Nat :=
  s.frames.length

/-- Whether the innermost block is in a loop. -/
def inLoop (s : ScopeStack) : Bool :=
  s.frames.head?.any Frame.inLoop

/-- Opens a frame. -/
def push (s : ScopeStack) (frame : Frame) : ScopeStack :=
  ⟨frame :: s.frames⟩

/-- Opens a block, which is in a loop exactly when the block around it is. -/
def pushBlock (s : ScopeStack) : ScopeStack :=
  s.push (.blank s.inLoop)

/-- The innermost frame. -/
def top? (s : ScopeStack) : Option Frame :=
  s.frames.head?

/-- Closes the innermost block, if there is one. -/
def pop (s : ScopeStack) : ScopeStack :=
  ⟨s.frames.tail⟩

/-- **Declares a name in the innermost block.** Outside of every block nothing is declared. -/
def declare (s : ScopeStack) (name : String) : ScopeStack :=
  match s.frames with
  | [] => s
  | frame :: rest => ⟨frame.declare name :: rest⟩

/-- **Whether a name is visible.** -/
def contains (s : ScopeStack) (name : String) : Bool :=
  s.frames.any (·.contains name)

/-! ## What the operations do to the visible names -/

@[simp] theorem pop_push (s : ScopeStack) (frame : Frame) : (s.push frame).pop = s := rfl

@[simp] theorem inLoop_push (s : ScopeStack) (frame : Frame) :
    (s.push frame).inLoop = frame.inLoop := rfl

/-- An opened frame adds its names to those that were visible. -/
theorem contains_push (s : ScopeStack) (frame : Frame) (name : String) :
    (s.push frame).contains name = (frame.contains name || s.contains name) := rfl

/-- A block opens without names. -/
@[simp] theorem contains_pushBlock (s : ScopeStack) (name : String) :
    s.pushBlock.contains name = s.contains name := by
  simp [pushBlock, contains_push, Frame.blank, Frame.contains]

/-- A declared name is visible from then on, wherever a block is open. -/
theorem contains_declare (s : ScopeStack) (name other : String) (h : s.frames ≠ []) :
    (s.declare name).contains other = (other == name || s.contains other) := by
  obtain ⟨_ | ⟨frame, rest⟩⟩ := s
  · exact absurd rfl h
  · simp only [declare, contains, Frame.declare, Frame.contains, List.any_cons, List.contains_cons,
      Bool.or_assoc]

/-- A declaration leaves the number of open blocks as it is. -/
@[simp] theorem depth_declare (s : ScopeStack) (name : String) :
    (s.declare name).depth = s.depth := by
  unfold declare
  split <;> simp_all [depth]

end ScopeStack

end FrontEnd
