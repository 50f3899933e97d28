import CallScript.Term
import CallScript.Text.Quoted

/-!
# Frames

A frame binds names to values and may stand inside another frame. The frames of a program live in one
array, a frame is known by its place there, and its parent always stands at an earlier place. The
chain of a frame is the frame itself followed by those around it; a name means what the first frame
of the chain that binds it says.
-/

namespace CallScript

/-- Bindings in the order in which their names were first bound. -/
abbrev Bindings := List (String × Value)

/-- Binds a name, in its old place if it is bound already. -/
def Bindings.bind (name : String) (value : Value) : Bindings → Bindings
  | [] => [(name, value)]
  | (known, old) :: rest =>
    if known = name then (name, value) :: rest else (known, old) :: Bindings.bind name value rest

/-- Binds names to values pairwise; of a repeated name the last value holds. -/
def Bindings.ofPairs (pairs : List (String × Value)) : Bindings :=
  pairs.foldl (fun bindings pair => Bindings.bind pair.1 pair.2 bindings) []

structure Frame where
  bindings : Bindings
  parent : Option FrameId

/-- The frame at `id` and the frames around it, inside out. -/
def chain (frames : Array Frame) (id : FrameId) : List FrameId :=
  match frames[id]? with
  | none => []
  | some frame =>
    id :: match frame.parent with
      | none => []
      | some parent => if parent < id then chain frames parent else []
termination_by id

def ownBinding (frames : Array Frame) (name : String) (id : FrameId) : Option Value :=
  frames[id]?.bind fun frame => frame.bindings.lookup name

def lookup (frames : Array Frame) (name : String) (id : FrameId) : Option Value :=
  (chain frames id).findSome? (ownBinding frames name)

def isBound (frames : Array Frame) (name : String) (id : FrameId) : Bool :=
  (chain frames id).any fun frame => (ownBinding frames name frame).isSome

def frameDepth (frames : Array Frame) (id : FrameId) : Nat :=
  (chain frames id).length - 1

def ownNames (frames : Array Frame) (id : FrameId) : List String :=
  match frames[id]? with
  | none => []
  | some frame => frame.bindings.map Prod.fst

/-- The same names, ordered by code points. -/
def sortedNames (frames : Array Frame) (id : FrameId) : List String :=
  (ownNames frames id).mergeSort fun a b => a ≤ b

/-- A description of the frame at `id`: its own names, and how many frames are around it. -/
def describeFrame (frames : Array Frame) (id : FrameId) : String :=
  "Environment([" ++ String.intercalate ", " ((sortedNames frames id).map Text.quote) ++
    "], depth=" ++ toString (frameDepth frames id) ++ ")"

end CallScript
