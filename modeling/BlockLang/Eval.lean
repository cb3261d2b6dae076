import BlockLang.Eval.Arithmetic
import BlockLang.Step

/-!
# Evaluation

A tree is evaluated in a frame.  A block that is not empty runs its statements in a
child frame, which is released however the block ends; its value is that of its last
statement, which is run once more for it.  `let` and assignment write the current
frame, and an assignment requires that its name is bound already.
-/

namespace BlockLang

/-- A step on the scopes that may stop. -/
abbrev EvalM := StepM EvalFault Scopes

namespace Eval

/-- Stops with an error of the program. -/
def fail {α : Type} (e : EvalError) : EvalM α :=
  throw (.error e)

/-- An answer about the scopes. -/
def ask {α : Type} (f : Scopes → Except ScopeFault α) : EvalM α := do
  match f (← get) with
  | .ok a => return a
  | .error fault => throw (.scope fault)

/-- A change of the scopes. -/
def change (f : Scopes → Except ScopeFault Scopes) : EvalM Unit := do
  match f (← get) with
  | .ok s => set s
  | .error fault => throw (.scope fault)

/-- The value of a name. -/
def lookup (frame : Nat) (x : String) : EvalM Value := do
  match ← ask (fun s => s.find frame x) with
  | some v => return v
  | none => fail (.unbound x)

/-- Binds a name in a frame. -/
def store (frame : Nat) (x : String) (v : Value) : EvalM Unit :=
  change (fun s => s.store frame x v)

/-- Makes a frame under another one. -/
def newChild (frame : Nat) : EvalM Nat := do
  match (← get).newFrame (some frame) with
  | .ok (child, s) =>
    set s
    return child
  | .error fault => throw (.scope fault)

/-- **Runs a step in a child frame**, which is released however the step ends.  If the release
fails, that is the outcome. -/
def withChild {α : Type} (frame : Nat) (body : Nat → EvalM α) : EvalM α := do
  let child ← newChild frame
  let outcome : Except EvalFault α ←
    tryCatch (do return .ok (← body child)) (fun fault => return .error fault)
  change (fun s => s.release child)
  match outcome with
  | .ok a => return a
  | .error fault => throw fault

/-- An operation on two values: numbers calculate, and texts are joined by `+`. -/
def operate (op : Operator) : Value → Value → Except EvalError Value
  | .number l, .number r => .number <$> calculate op l r
  | .text l, .text r =>
    if op = .add then .ok (.text (l ++ r)) else .error (.unsupported (.text l) op (.text r))
  | l, r => .error (.unsupported l op r)

mutual

/-- **The value of a tree** in a frame. -/
def evaluate (frame : Nat) : Tree → EvalM Value
  | .number n => return .number n
  | .text s => return .text s
  | .name x => lookup frame x
  | .operation left right op => do
    let l ← evaluate frame left
    let r ← evaluate frame right
    match operate op l r with
    | .ok v => return v
    | .error e => fail e
  | .block [] => return .unit
  | .block (stmt :: stmts) => withChild frame (fun child => runBlock child (stmt :: stmts))
  | .declaration x => do
    store frame x .unit
    return .unit
  | .initialization x value => do
    let v ← evaluate frame value
    store frame x v
    return .unit
  | .assignment x value => do
    let v ← evaluate frame value
    let _ ← lookup frame x
    store frame x v
    return .unit
  | .foreign kind => fail (.notEvaluable kind)

/-- Runs the statements of a block in order, and the last one once more for the block's value. -/
def runBlock (frame : Nat) : List Tree → EvalM Value
  | [] => return .unit
  | stmt :: stmts => do
    let _ ← evaluate frame stmt
    match stmts with
    | [] => evaluate frame stmt
    | _ :: _ => runBlock frame stmts

end

end Eval

end BlockLang
