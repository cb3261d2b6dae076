import BlockLang.Index
import BlockLang.Value

/-!
# Scopes

Names are bound in frames.  A frame knows its parent by number; a name that a frame
does not bind is looked up in its parent, and so on to a frame without one.  Frames
are numbered in the order of their making and released in the opposite order, so a
frame never outlives its parent.

The frames are held with the newest in front.  The number of a frame is then the
number of frames behind it, making and releasing one are `::` and `tail`, and a
lookup runs down the list,

    lookup x (f :: older) older.length = f's own x, or else its parent's among older.
-/

namespace BlockLang

/-- A frame: the number of its parent, and its names in the order in which they were first
bound. -/
structure Frame where
  parent : Option Nat
  bindings : List (String × Value) := []
  deriving Repr, DecidableEq

namespace Frame

/-- The value that this frame itself binds to a name. -/
def find? (f : Frame) (x : String) : Option Value :=
  f.bindings.lookup x

/-- Binds a name in a list of bindings; a name that is bound already keeps its place. -/
def bind (x : String) (v : Value) : List (String × Value) → List (String × Value)
  | [] => [(x, v)]
  | (y, w) :: rest => if y = x then (y, v) :: rest else (y, w) :: bind x v rest

/-- **A name that was bound has the value that it was bound to**, and every other name the value
that it had. -/
theorem lookup_bind (x y : String) (v : Value) (bs : List (String × Value)) :
    (bind x v bs).lookup y = if y = x then some v else bs.lookup y := by
  induction bs with
  | nil =>
    by_cases h : y = x
    · simp [bind, h]
    · simp [bind, List.lookup_cons, h, show (y == x) = false by simpa using h]
  | cons b rest ih =>
    obtain ⟨z, w⟩ := b
    by_cases hy : y = z
    · subst hy
      by_cases hz : y = x <;> simp [bind, hz]
    · have hne : (y == z) = false := by simpa using hy
      by_cases hz : z = x
      · subst hz
        simp [bind, List.lookup_cons, hy, hne]
      · simp only [bind, hz, if_false, List.lookup_cons, hne]
        exact ih

/-- Binds a name in this frame. -/
def store (f : Frame) (x : String) (v : Value) : Frame :=
  { f with bindings := bind x v f.bindings }

/-- After a name was bound in a frame, the frame gives it that value and all else as before. -/
theorem find?_store (f : Frame) (x y : String) (v : Value) :
    (f.store x v).find? y = if y = x then some v else f.find? y :=
  lookup_bind x y v f.bindings

/-- Bindings as text. -/
def textOf (bs : List (String × Value)) : String :=
  "[" ++ ", ".intercalate (bs.map (fun (x, v) => x ++ "=" ++ v.display)) ++ "]"

/-- A frame as text. -/
def display (f : Frame) : String :=
  textOf f.bindings

end Frame

/-- What cannot be done with scopes: a parent that is not there, a release out of turn, a frame
that is not there, and a release where there is no frame at all. -/
inductive ScopeFault where
  | noParent (frame : Int)
  | outOfOrder (frame : Int)
  | noFrame (fault : IndexFault)
  | nothingToRelease
  deriving Repr, DecidableEq

namespace ScopeFault

/-- The complaint about a scope. -/
def message : ScopeFault → String
  | noParent n => "parent frame " ++ toString n ++ " does not exist"
  | outOfOrder n => "frame " ++ toString n ++ " released out of order"
  | noFrame fault => fault.message
  | nothingToRelease => "pop from empty list"

end ScopeFault

/-- The live frames, the newest in front. -/
structure Scopes where
  frames : List Frame := []
  deriving Repr, DecidableEq

namespace Scopes

/-- One frame, without names and without a parent. -/
def root : Scopes :=
  { frames := [{ parent := none }] }

/-- The number of live frames. -/
def size (s : Scopes) : Nat :=
  s.frames.length

/-! ### The frames as a list -/

/-- The frame of a given number. -/
def frameIn : List Frame → Nat → Option Frame
  | [], _ => none
  | f :: older, n => if n = older.length then some f else frameIn older n

/-- Changes the frame of a given number. -/
def modifyIn (g : Frame → Frame) : List Frame → Nat → List Frame
  | [], _ => []
  | f :: older, n => if n = older.length then g f :: older else f :: modifyIn g older n

/-- The value of a name seen from a frame: its own, or its parent's. -/
def lookupIn (x : String) : List Frame → Nat → Option Value
  | [], _ => none
  | f :: older, n =>
    if n = older.length then
      match f.find? x with
      | some v => some v
      | none => f.parent.bind (lookupIn x older)
    else lookupIn x older n

/-- The numbers of a frame and its ancestors, the innermost first. -/
def chainIn : List Frame → Nat → List Nat
  | [], _ => []
  | f :: older, n =>
    if n = older.length then
      match f.parent with
      | none => [n]
      | some p => n :: chainIn older p
    else chainIn older n

/-- A frame and its ancestors as text, the innermost first. -/
def displayIn : List Frame → Nat → String
  | [], _ => ""
  | f :: older, n =>
    if n = older.length then
      match f.parent with
      | none => f.display
      | some p => f.display ++ " < " ++ displayIn older p
    else displayIn older n

@[simp] theorem length_modifyIn (g : Frame → Frame) (fs : List Frame) (n : Nat) :
    (modifyIn g fs n).length = fs.length := by
  induction fs with
  | nil => rfl
  | cons f older ih => by_cases h : n = older.length <;> simp [modifyIn, h, ih]

/-- A frame of the list has a number below its length. -/
theorem isSome_frameIn_iff {fs : List Frame} {n : Nat} : (frameIn fs n).isSome ↔ n < fs.length := by
  induction fs with
  | nil => simp [frameIn]
  | cons f older ih =>
    by_cases h : n = older.length
    · simp [frameIn, h]
    · simp only [frameIn, h, if_false, ih, List.length_cons]
      omega

/-! ### Operations -/

/-- The number of the live frame that an index stands for; a negative index counts from the
newest frame down. -/
def number (s : Scopes) (frame : Int) : Except ScopeFault Nat :=
  (Index.place s.size frame).mapError .noFrame

/-- **A new frame** under a parent, if it has one; the parent has to be live.  Gives the number of
the new frame. -/
def newFrame (s : Scopes) : Option Int → Except ScopeFault (Nat × Scopes)
  | none => .ok (s.size, { frames := { parent := none } :: s.frames })
  | some p =>
    if 0 ≤ p ∧ p < s.size then
      .ok (s.size, { frames := { parent := some p.toNat } :: s.frames })
    else .error (.noParent p)

/-- **Releases a frame**, which has to be the newest. -/
def release (s : Scopes) (frame : Int) : Except ScopeFault Scopes :=
  if frame = (s.size : Int) - 1 then
    match s.frames with
    | [] => .error .nothingToRelease
    | _ :: older => .ok { frames := older }
  else .error (.outOfOrder frame)

/-- The bindings of a frame. -/
def bindings (s : Scopes) (frame : Int) : Except ScopeFault (List (String × Value)) := do
  let n ← s.number frame
  return ((frameIn s.frames n).map Frame.bindings).getD []

/-- The parent of a frame. -/
def parent (s : Scopes) (frame : Int) : Except ScopeFault (Option Nat) := do
  let n ← s.number frame
  return (frameIn s.frames n).bind Frame.parent

/-- Binds a name in a frame, and in no other. -/
def store (s : Scopes) (frame : Int) (x : String) (v : Value) : Except ScopeFault Scopes := do
  let n ← s.number frame
  return { frames := modifyIn (fun f => f.store x v) s.frames n }

/-- The innermost value of a name, seen from a frame. -/
def find (s : Scopes) (frame : Int) (x : String) : Except ScopeFault (Option Value) := do
  let n ← s.number frame
  return lookupIn x s.frames n

/-- Whether a name is bound, seen from a frame. -/
def has (s : Scopes) (frame : Int) (x : String) : Except ScopeFault Bool := do
  return (← s.find frame x).isSome

/-- A frame and its ancestors, the innermost first.  The frame itself is given as it was asked
for. -/
def chain (s : Scopes) (frame : Int) : Except ScopeFault (List Int) := do
  let n ← s.number frame
  return frame :: ((chainIn s.frames n).drop 1).map Int.ofNat

/-- A frame and its ancestors as text. -/
def display (s : Scopes) (frame : Int) : Except ScopeFault String := do
  let n ← s.number frame
  return displayIn s.frames n

end Scopes

end BlockLang
