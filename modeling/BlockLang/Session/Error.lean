import BlockLang.Console
import BlockLang.Eval.Error
import BlockLang.Parser.Cursor
import BlockLang.Text.Utf8

/-!
# What goes wrong in a session

The errors of the language, of reading and of evaluating, are reported to the user
as such.  Everything else that can go wrong is unexpected: the report names its kind
and says that the fault is the program's own.
-/

namespace BlockLang

/-- Why a step of a session stops. -/
inductive SessionError where
  | parse (fault : Fault)
  | eval (fault : EvalFault)
  | unreadable (path : String)
  | reservedPath
  | nullInPath
  | notText (fault : Text.DecodeFault)
  | noResult
  deriving Repr, DecidableEq

namespace SessionError

/-- The file name of the interactive session. -/
def interactivePath : String :=
  "<in>"

/-- A scope that is not as it should be, as something unexpected. -/
def ofScope (fault : ScopeFault) : Raised :=
  match fault with
  | .noParent _ | .outOfOrder _ => .unexpected "ValueError" fault.message
  | .noFrame _ | .nothingToRelease => .unexpected "IndexError" fault.message

/-- The error as the console settles it. -/
def raised : SessionError → Raised
  | parse (.refused e) => .reported e.report
  | parse fault => .unexpected fault.kind fault.message
  | eval (.error e) => .reported e.report
  | eval (.scope fault) => ofScope fault
  | unreadable path =>
    .reported (.remark [.plain "'", .snippet path, .plain "' could not be opened"])
  | reservedPath => .reported (.saying [.plain ("'" ++ interactivePath ++ "' is a reserved filename")])
  | nullInPath => .unexpected "ValueError" "embedded null byte"
  | notText fault => .unexpected "UnicodeDecodeError" fault.message
  | noResult => .unexpected "IndexError" "pop from empty list"

end SessionError

end BlockLang
