import BlockLang.Scopes.Arena

/-!
# Scope scripts

A script works on an arena through handles.  A handle remembers the number of a frame
and nothing else, so it may outlive its frame, and may then see a later frame of the
same number.  A scene is the arena together with the handles made so far.
-/

namespace BlockLang.Scopes

/-- The arena and the handles on it, in the order of their making. -/
structure Scene where
  arena : Arena
  handles : List Int
  deriving Repr, DecidableEq

/-- A single frame and a handle on it. -/
def Scene.start : Scene :=
  { arena := .root, handles := [0] }

/-- The frames of a scene. -/
def Scene.scopes (scene : Scene) : Scopes :=
  scene.arena.scopes

/-- One step of a script. -/
inductive Step where
  | newFrame (parent : Option Int)
  | releaseFrame (frame : Int)
  | chain (frame : Int)
  | size
  | root
  | attach (frame : Int)
  | child (handle : Int)
  | store (handle : Int) (name : String) (value : Value)
  | find (handle : Int) (name : String)
  | get (handle : Int) (name : String)
  | has (handle : Int) (name : String)
  | parent (handle : Int)
  | bindings (handle : Int)
  | display (handle : Int)
  | release (handle : Int)
  | withChild (handle : Int) (steps : List Step)
  deriving Repr

/-- What a step answers. -/
inductive Answer where
  | done
  | frame (n : Option Nat)
  | frames (ns : List Int)
  | count (n : Nat)
  | value (v : Option Value)
  | flag (b : Bool)
  | bindings (bs : List (String × Value))
  | text (s : String)
  | several (answers : List Answer)
  deriving Repr

/-- Why a step stops: the arena refuses, a name has no binding, or a handle was never made. -/
inductive StepFault where
  | scope (fault : ScopeFault)
  | unbound (name : String)
  | noHandle (fault : IndexFault)
  deriving Repr, DecidableEq

/-- A step on a scene that may stop. -/
abbrev SceneM := StepM StepFault Scene

namespace SceneM

/-- An answer about the arena. -/
def ask {α : Type} (f : Arena → Except ScopeFault α) : SceneM α := do
  match f (← get).arena with
  | .ok a => return a
  | .error fault => throw (.scope fault)

/-- An operation on the arena.  What it did before it was refused stays done. -/
def change {α : Type} (op : Arena.ArenaM α) : SceneM α := do
  let scene ← get
  let (outcome, arena) := StepM.runFrom op scene.arena
  set { scene with arena }
  match outcome with
  | .ok a => return a
  | .error fault => throw (.scope fault)

/-- The frame number of a handle.  A negative number counts from the last handle back. -/
def frameOf (handle : Int) : SceneM Int := do
  match Index.get (← get).handles handle with
  | .ok frame => return frame
  | .error fault => throw (.noHandle fault)

/-- Makes a handle on a frame and gives the handle's number. -/
def newHandle (frame : Int) : SceneM Nat := do
  let scene ← get
  set { scene with handles := scene.handles ++ [frame] }
  return scene.handles.length

end SceneM

open SceneM

mutual

/-- Carries out one step. -/
def Step.run : Step → SceneM Answer
  | .newFrame parent => do return .count (← change (Arena.newFrame parent))
  | .releaseFrame frame => do
    change (Arena.release frame)
    return .done
  | .chain frame => do return .frames (← ask (fun a => a.chain frame))
  | .size => do return .count (← get).arena.size
  | .root => do return .count (← newHandle (← change (Arena.newFrame none)))
  | .attach frame => do return .count (← newHandle frame)
  | .child handle => do
    let frame ← frameOf handle
    return .count (← newHandle (← change (Arena.newFrame (some frame))))
  | .store handle x v => do
    let frame ← frameOf handle
    change (Arena.store frame x v)
    return .done
  | .find handle x => do
    let frame ← frameOf handle
    return .value (← ask (fun a => a.find frame x))
  | .get handle x => do
    let frame ← frameOf handle
    match ← ask (fun a => a.find frame x) with
    | some v => return .value (some v)
    | none => throw (.unbound x)
  | .has handle x => do
    let frame ← frameOf handle
    return .flag (← ask (fun a => a.has frame x))
  | .parent handle => do
    let frame ← frameOf handle
    -- the answer is a number of a frame, which no parent is short of, `Scene.acyclic_after`
    return .frame ((← ask (fun a => a.parentOf frame)).map Int.toNat)
  | .bindings handle => do
    let frame ← frameOf handle
    return .bindings (← ask (fun a => a.bindingsOf frame))
  | .display handle => do
    let frame ← frameOf handle
    return .text (← ask (fun a => a.display frame))
  | .release handle => do
    let frame ← frameOf handle
    change (Arena.release frame)
    return .done
  | .withChild handle steps => do
    let frame ← frameOf handle
    let child ← change (Arena.newFrame (some frame))
    let _ ← newHandle child
    let outcome : Except StepFault (List Answer) ←
      tryCatch (do return .ok (← runSteps steps)) (fun fault => return .error fault)
    change (Arena.release child)
    match outcome with
    | .ok answers => return .several answers
    | .error fault => throw fault

/-- Carries out steps in order, up to the first that stops. -/
def runSteps : List Step → SceneM (List Answer)
  | [] => return []
  | step :: steps => do
    let answer ← step.run
    return answer :: (← runSteps steps)

end

end BlockLang.Scopes
