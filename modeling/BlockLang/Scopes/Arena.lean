import BlockLang.Scopes
import BlockLang.Step

/-!
# The arena

The live frames lie in two lists side by side, the oldest in front,

    frame i  =  bindings[i], the names that it binds, and parents[i], the number of its parent.

An operation works on one list after the other, and what it did before it was refused
stays done.  So it is to be shown, and not in the form of an arena, that the lists have the
same length and that the parents of a frame come to an end: a parent is any number that
was accepted, and a walk up the parents asks for what it finds.

`Scopes` has the frames in one list, with the newest in front.
-/

namespace BlockLang

/-- The names of each frame, and the number of each frame's parent. -/
structure Arena where
  bindings : List (List (String × Value)) := []
  parents : List (Option Int) := []
  deriving Repr, DecidableEq

namespace Arena

/-- An operation on an arena that may be refused. -/
abbrev ArenaM := StepM ScopeFault Arena

/-- One frame, without names and without a parent. -/
def root : Arena :=
  { bindings := [[]], parents := [none] }

/-- The number of live frames. -/
def size (a : Arena) : Nat :=
  a.bindings.length

/-! ### Making and releasing frames -/

/-- Refuses a parent that is not live. -/
def checkParent : Option Int → ArenaM Unit
  | none => return ()
  | some p => do
    if 0 ≤ p ∧ p < (← get).size then return () else throw (.noParent p)

/-- **Makes a frame** under a parent, if it has one, and gives the number of the new frame. -/
def newFrame (parent : Option Int) : ArenaM Nat := do
  checkParent parent
  modify (fun a => { a with bindings := a.bindings ++ [[]] })
  modify (fun a => { a with parents := a.parents ++ [parent] })
  return (← get).size - 1

/-- Takes the newest frame off the bindings. -/
def popBindings : ArenaM Unit := do
  if (← get).bindings.isEmpty then throw .nothingToRelease
  else modify (fun a => { a with bindings := a.bindings.dropLast })

/-- Takes the newest frame off the parents. -/
def popParent : ArenaM Unit := do
  if (← get).parents.isEmpty then throw .nothingToRelease
  else modify (fun a => { a with parents := a.parents.dropLast })

/-- **Releases a frame**, which has to be the newest. -/
def release (frame : Int) : ArenaM Unit := do
  if frame = ((← get).size : Int) - 1 then
    popBindings
    popParent
  else throw (.outOfOrder frame)

/-! ### A frame by its number -/

/-- The bindings of a frame. -/
def bindingsOf (a : Arena) (frame : Int) : Except ScopeFault (List (String × Value)) :=
  (Index.get a.bindings frame).mapError .noFrame

/-- The parent of a frame. -/
def parentOf (a : Arena) (frame : Int) : Except ScopeFault (Option Int) :=
  (Index.get a.parents frame).mapError .noFrame

/-- Binds a name in a frame, and in no other. -/
def store (frame : Int) (x : String) (v : Value) : ArenaM Unit := do
  match Index.place (← get).bindings.length frame with
  | .ok n => modify (fun a => { a with bindings := a.bindings.modify n (Frame.bind x v) })
  | .error fault => throw (.noFrame fault)

/-! ### A frame and its ancestors -/

/-- **A walk up the parents**, as long as there is one: the frames that it comes by, and the fault
that it ends with, if it comes to a frame that is not there. -/
inductive Climbs (a : Arena) : Int → List Int → Option ScopeFault → Prop
  | root {frame : Int} (h : a.parentOf frame = .ok none) : Climbs a frame [frame] none
  | missing {frame : Int} {fault : ScopeFault} (h : a.parentOf frame = .error fault) :
    Climbs a frame [frame] (some fault)
  | link {frame p : Int} {frames : List Int} {fault : Option ScopeFault}
    (h : a.parentOf frame = .ok (some p)) (hrest : Climbs a p frames fault) :
    Climbs a frame (frame :: frames) fault

/-- The walk from a frame, broken off after so many frames. -/
def climb (a : Arena) : Nat → Int → List Int × Option ScopeFault
  | 0, _ => ([], none)
  | limit + 1, frame =>
    match a.parentOf frame with
    | .ok none => ([frame], none)
    | .error fault => ([frame], some fault)
    | .ok (some p) => (frame :: (a.climb limit p).1, (a.climb limit p).2)

/-- The walk from a frame.  No frame is older than itself, so that it comes by each frame at most
once and is never broken off, `Scopes.climbs_walk`. -/
def walk (a : Arena) (frame : Int) : List Int × Option ScopeFault :=
  a.climb (a.size + 1) frame

/-- What a walk gives, unless it ends with a fault. -/
def ended {α : Type} (result : α) : Option ScopeFault → Except ScopeFault α
  | none => .ok result
  | some fault => .error fault

/-- A frame and its ancestors, the innermost first. -/
def chain (a : Arena) (frame : Int) : Except ScopeFault (List Int) :=
  ended (a.walk frame).1 (a.walk frame).2

/-- The first value of a name among frames. -/
def findAmong (a : Arena) (x : String) : List Int → Except ScopeFault (Option Value)
  | [] => .ok none
  | frame :: frames => do
    match (← a.bindingsOf frame).lookup x with
    | some v => return some v
    | none => a.findAmong x frames

/-- The innermost value of a name, seen from a frame.  The walk goes no further than to it. -/
def find (a : Arena) (frame : Int) (x : String) : Except ScopeFault (Option Value) := do
  match ← a.findAmong x (a.walk frame).1 with
  | some v => return some v
  | none => ended none (a.walk frame).2

/-- Whether a name is bound, seen from a frame. -/
def has (a : Arena) (frame : Int) (x : String) : Except ScopeFault Bool := do
  return (← a.find frame x).isSome

/-- Frames as text. -/
def displayEach (a : Arena) : List Int → Except ScopeFault (List String)
  | [] => .ok []
  | frame :: frames => do
    return Frame.textOf (← a.bindingsOf frame) :: (← a.displayEach frames)

/-- A frame and its ancestors as text. -/
def display (a : Arena) (frame : Int) : Except ScopeFault String := do
  let texts ← a.displayEach (a.walk frame).1
  ended (" < ".intercalate texts) (a.walk frame).2

/-! ### The frames as one list -/

/-- The frames of an arena, each with its names and its parent. -/
def scopes (a : Arena) : Scopes :=
  { frames := (List.zipWith (fun bindings parent => { parent := parent.map Int.toNat, bindings })
      a.bindings a.parents).reverse }

end Arena

/-- The arena that the frames lie in. -/
def Scopes.layout (s : Scopes) : Arena :=
  { bindings := s.frames.reverse.map Frame.bindings
    parents := s.frames.reverse.map (fun f => f.parent.map Int.ofNat) }

end BlockLang
