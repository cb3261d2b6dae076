import BlockLang.Text.Numeric
import BlockLang.Text.Quoted
import BlockLang.Token.Stream

/-!
# Command-line arguments

The arguments are switches and at most one file, in any order.  A long switch may be
cut short as long as only one switch begins so.  `--` ends the switches: what follows
it is a file even if it begins with a dash.  A dash alone, a negative number, and
anything with a space in it that is no switch are files too.

`Request.ofArguments` reads the arguments from left to right.  Each is classified
first, so an ambiguous switch is found before anything else; then they are taken one
by one, and the first that asks for help or cannot be right decides.  What is left
over at the end is an error.
-/

namespace BlockLang

/-- The switches. -/
inductive Switch where
  | help
  | rightward
  | trace
  deriving Repr, DecidableEq

namespace Switch

/-- A switch with its spellings joined, as messages name it. -/
def describe : Switch → String
  | help => "-h/--help"
  | rightward => "--infix"
  | trace => "--trace"

/-- The spellings of the switches. -/
def spellings : List (String × Switch) :=
  [("-h", help), ("--help", help), ("--infix", rightward), ("--trace", trace)]

end Switch

/-- An argument: a switch in some spelling, perhaps with a value attached; something that looks
like a switch; the mark that ends the switches; or a value. -/
inductive Argument where
  | switch (s : Switch) (long : Bool) (attached : Option String)
  | unknown (s : String)
  | separator
  | value (s : String)
  deriving Repr, DecidableEq

namespace Argument

/-- The characters before the first `=`, and those after it if there is one. -/
def splitAtEquals (cs : List Char) : List Char × Option (List Char) :=
  match cs.dropWhile (· ≠ '=') with
  | [] => (cs, none)
  | _ :: after => (cs.takeWhile (· ≠ '='), some after)

/-- The switches whose spelling begins with the given characters. -/
def beginningWith (start : List Char) : List (String × Switch) :=
  Switch.spellings.filter (fun (name, _) => start.isPrefixOf name.toList)

/-- Whether characters are a decimal number. -/
def isDecimalNumber (cs : List Char) : Bool :=
  let whole := cs.takeWhile Text.isDecimal
  match cs.dropWhile Text.isDecimal with
  | [] => !whole.isEmpty
  | '.' :: fraction => !fraction.isEmpty && fraction.all Text.isDecimal
  | _ => false

/-- Whether characters are a negative number, with a line end behind it or not. -/
def isNegativeNumber : List Char → Bool
  | '-' :: digits =>
    isDecimalNumber digits
      || (digits.getLast? == some '\n' && isDecimalNumber digits.dropLast)
  | _ => false

/-- An argument that begins with a dash and matches no switch. -/
def unmatched (s : String) : Argument :=
  if isNegativeNumber s.toList || s.toList.contains ' ' then value s else unknown s

/-- **The class of an argument** in front of the separator.  An ambiguous switch gives the
spellings that it could stand for. -/
def classify (s : String) : Except (List String) Argument :=
  match s.toList with
  | [] => .ok (value s)
  | c :: rest =>
    if c ≠ '-' || rest.isEmpty then .ok (value s)
    else
      let isLong := rest.head? == some '-'
      let (name, attached) := splitAtEquals s.toList
      match Switch.spellings.lookup s, Switch.spellings.lookup (String.ofList name), attached with
      | some sw, _, _ => .ok (.switch sw isLong none)
      | none, some sw, some after => .ok (.switch sw isLong (some (String.ofList after)))
      | _, _, _ =>
        if isLong then
          match beginningWith name with
          | [] => .ok (unmatched s)
          | [(_, sw)] => .ok (.switch sw true (attached.map String.ofList))
          | several => .error (several.map Prod.fst)
        else
          match Switch.spellings.lookup (String.ofList (s.toList.take 2)) with
          | some sw => .ok (.switch sw false (some (String.ofList (s.toList.drop 2))))
          | none => .ok (unmatched s)

/-- Whether an argument looks like a switch. -/
def isSwitch : Argument → Bool
  | switch .. | unknown _ => true
  | separator | value _ => false

/-- An argument without a switch as it was written. -/
def spelling : Argument → String
  | separator => "--"
  | value s | unknown s => s
  | switch s .. => s.describe

/-- What of an attached value a short switch refuses.  Each character may be the same switch
again; the rest from the first that is not is refused. -/
def refusedCluster : List Char → Option (List Char)
  | [] => none
  | c :: rest => if c = 'h' then refusedCluster rest else some (c :: rest)

/-- What of an attached value a switch refuses.  No switch takes a value, so only more short
switches may be attached to a short one. -/
def refusedValue (long : Bool) : Option String → Option String
  | none => none
  | some given =>
    if long || given = "" then some given
    else (refusedCluster given.toList).map String.ofList

end Argument

/-- What the arguments ask for: to run a file or the shell, to be told how, or nothing that can be
understood. -/
inductive Request where
  | run (path : Option String) (grouping : Grouping) (trace : Bool)
  | help
  | misuse (message : String)
  deriving Repr, DecidableEq

namespace Request

/-- The arguments taken so far: the file if it was given, the switches, and what is left over. -/
structure Taken where
  path : Option String := none
  grouping : Grouping := .byPrecedence
  trace : Bool := false
  extras : List String := []
  deriving Repr, DecidableEq

/-- The classes of the arguments. -/
def classifyAll : List String → Except String (List Argument)
  | [] => .ok []
  | "--" :: rest => .ok (.separator :: rest.map .value)
  | s :: rest =>
    match Argument.classify s with
    | .error several =>
      .error ("ambiguous option: " ++ s ++ " could match " ++ ", ".intercalate several)
    | .ok argument => (classifyAll rest).map (argument :: ·)

/-- Takes the arguments after the last switch.  The file is the first value, with the separator in
front of it or behind it; if there is a file already, all of them are left over. -/
def takeLast (taken : Taken) (arguments : List Argument) : Taken :=
  let leave (path : Option String) (rest : List Argument) : Taken :=
    { taken with path, extras := taken.extras ++ rest.map Argument.spelling }
  match taken.path, arguments with
  | some path, rest => leave (some path) rest
  | none, .separator :: .value s :: rest => leave (some s) rest
  | none, .separator :: rest => leave none rest
  | none, .value s :: .separator :: rest => leave (some s) rest
  | none, .value s :: rest => leave (some s) rest
  | none, rest => leave none rest

/-- What remains when everything is taken. -/
def finish (taken : Taken) : Request :=
  if taken.extras.isEmpty then .run taken.path taken.grouping taken.trace
  else .misuse ("unrecognized arguments: " ++ " ".intercalate taken.extras)

/-- Takes the arguments in order. -/
def takeAll (taken : Taken) : List Argument → Request
  | [] => finish taken
  | argument :: rest =>
    if !(argument :: rest).any Argument.isSwitch then finish (takeLast taken (argument :: rest))
    else
      match argument with
      | .switch s long attached =>
        match Argument.refusedValue long attached with
        | some value =>
          .misuse ("argument " ++ s.describe ++ ": ignored explicit argument " ++ Text.quoted value)
        | none =>
          match s with
          | .help => .help
          | .rightward => takeAll { taken with grouping := .rightward } rest
          | .trace => takeAll { taken with trace := true } rest
      | .value s =>
        match taken.path with
        | none => takeAll { taken with path := some s } rest
        | some _ => takeAll { taken with extras := taken.extras ++ [s] } rest
      | other => takeAll { taken with extras := taken.extras ++ [other.spelling] } rest

/-- **What the arguments ask for.** -/
def ofArguments (arguments : List String) : Request :=
  match classifyAll arguments with
  | .error message => .misuse message
  | .ok classes => takeAll {} classes

end Request

end BlockLang
