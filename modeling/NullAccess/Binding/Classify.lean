import NullAccess.Binding.Basic
import NullAccess.Binding.Declaration
import NullAccess.Fault
import NullAccess.Rule.Evaluate
import NullAccess.Source.Parameter
import NullAccess.Text.Slice

/-!
# Which declarations are risky

The declarations on one line are turned into risky bindings.  A parameter is risky unless its
function follows a calling convention that always supplies it: a callback of an array method, a
listener, an event parameter, or an enabled framework signature.  A variable is risky when the rules
say that its initialiser may give no value and nothing on the line or shortly before supplies one.
-/

namespace NullAccess

/-- What a classification goes by: the rules for initialisers and the enabled signatures. -/
structure Classifier where
  rules : RuleSet
  signatures : List (List String) := []

namespace Classifier

/-- The number of lines before an indexed read that are searched for a check of the length. -/
def lengthWindow : Int := 5

/-- Whether a function expression that begins after `before` is a callback by convention. -/
def isConventional (before : Line) : Bool :=
  Declaration.arrayCallback.occursIn before || Declaration.listener.occursIn before

def isExempt (k : Classifier) (params : List Char) : Bool :=
  !k.signatures.isEmpty && k.signatures.contains (Source.signature params)

/-- Whether a parameter of this name is supplied by the runtime: an event, or `e` where events are
handled. -/
def isEventParam (handlesEvents : Bool) (name : String) : Bool :=
  name == "event" || name == "evt" || name == "ev" || (name == "e" && handlesEvents)

def ofParams (k : Classifier) (function params : List Char) (line : Line) (n : Int) (depth : Int)
    (col : Nat) : List Binding :=
  if k.isExempt params then []
  else
    let handlesEvents := Declaration.isHandlerName function || Declaration.listener.occursIn line
    ((Source.absentableParams params).filter fun p => !isEventParam handlesEvents p).map fun p =>
      { name := p, depth := depth, originLine := n, originCol := col, kind := .parameter,
        reason := BindingKind.parameter.reason }

/-- The name of a function: its own, or the one it is assigned to. -/
def functionName (line : Line) (m : Pattern.Match) : List Char :=
  if (m.group 1).isEmpty then
    match Declaration.assignedName.find? (line.take m.startCol) with
    | some a => a.group 1
    | none => []
  else m.group 1

def ofFunctions (k : Classifier) (line : Line) (n : Int) (depth : Int)
    (found : List Pattern.Match) : List Binding :=
  found.flatMap fun m =>
    if isConventional (line.take m.startCol) then []
    else k.ofParams (functionName line m) (m.group 2) line n depth m.stopCol

/-- The bindings with one more.  A binding of a name that is there already takes its place. -/
def keepLatest (held : List Binding) (b : Binding) : List Binding :=
  if held.any (·.name == b.name) then held.map fun h => if h.name == b.name then b else h
  else held ++ [b]

/-- The last binding of each name, in the order in which the names come first. -/
def dedupe (bs : List Binding) : List Binding := bs.foldl keepLatest []

/-- Whether a line shortly before line `n` checks that `path` is longer than `index`. -/
def isLengthChecked (path : List Char) (index : Nat) (n : Int) (lines : List Line) : Bool :=
  let exceeds := Declaration.lengthCheck path ">" index
  let reaches := Declaration.lengthCheck path ">=" (index + 1)
  (Text.slice lines (max 0 (n - 1 - lengthWindow)) (n - 1)).any fun l =>
    exceeds.occursIn l || reaches.occursIn l

/-- Whether an initialiser reads an element whose number is checked against the length.  Neither the
number nor the next one may be too long. -/
def isCheckedRead (rhs : List Char) (n : Int) (lines : List Line) : Except Fault Bool :=
  match Declaration.indexed.matchStart? rhs with
  | some m =>
    match Text.readNumeral? (m.group 2) with
    | some index =>
      if Text.isWritable (index + 1) then .ok (isLengthChecked (m.group 1) index n lines)
      else .error .longNumeral
    | none => .error .longNumeral
  | none => .ok false

/-- The text of an initialiser without blanks and semicolons at its end. -/
def initialiser (t : List Char) : List Char :=
  Text.trim (Text.dropEndWhile (· == ';') (Text.trim t))

def hasFallback (rhs : List Char) : Bool :=
  Text.holds ['?', '?'] rhs || Text.holds ['|', '|'] rhs

/-- The risky variable of a declaration with an initialiser, if it is one. -/
def ofVariable (k : Classifier) (m : Pattern.Match) (n : Int) (depth : Int) (lines : List Line) :
    Except Fault (List Binding) :=
  let rhs := initialiser (m.group 2)
  -- A fallback counts wherever it stands, also inside an argument.
  if rhs.isEmpty || hasFallback rhs then .ok []
  else
    match k.rules.evaluate rhs with
    | .error e => .error (.badPattern e.pattern e.flaw)
    | .ok ruling =>
      if ruling.verdict = .mayBeAbsent then
        match isCheckedRead rhs n lines with
        | .error f => .error f
        | .ok true => .ok []
        | .ok false =>
          .ok [{ name := String.ofList (m.group 1), depth := depth, originLine := n,
                 originCol := m.stopCol, kind := .assignment,
                 reason := BindingKind.assignment.reason, source := String.ofList rhs,
                 ruleId := ruling.ruleId }]
      else .ok []

/-- The risky bindings that line `n` declares.  `line` is its code, `depth` the depth behind it, and
`lines` the whole file. -/
def classify (k : Classifier) (line : Line) (n : Int) (depth : Int) (lines : List Line) :
    Except Fault (List Binding) :=
  -- The variable of such a loop is always given an element.
  if Declaration.forEachLoop.occursIn line then .ok []
  else
    let functions := Declaration.function.findAll line
    -- Of arrow functions and routes only the first on the line is seen.
    let arrows := [Declaration.arrow, Declaration.arrowSingle].filterMap (·.find? line)
    let route := (Declaration.route.find? line).toList
    -- A line that declares a function is not read as that of a variable.
    if functions.isEmpty && arrows.isEmpty && route.isEmpty then
      match Declaration.variableInit.find? line with
      | some m => k.ofVariable m n depth lines
      | none => .ok []
    else
      .ok (dedupe (k.ofFunctions line n depth functions ++
        arrows.flatMap (fun m => k.ofParams (m.group 1) (m.group 2) line n depth m.stopCol) ++
        route.flatMap (fun m => k.ofParams [] (m.group 1) line n depth m.stopCol)))

end Classifier

end NullAccess
