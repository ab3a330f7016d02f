import NullAccess.Text.Lines

/-!
# Options and operands

The arguments of a command are options and operands in any order.  An option has a long name after
two dashes or a one-letter name after one dash; letters may share a dash.  The value of an option
stands behind a `=`, directly behind its letter, or in the next argument.  Behind `--` all arguments
are operands.
-/

namespace NullAccess

/-- An option of a command. -/
structure Switch where
  /-- Its names, with their dashes. -/
  names : List String
  /-- What it sets. -/
  key : String
  /-- What it sets that to; an option without this takes a value. -/
  sets : Option Bool := none
  deriving DecidableEq, Repr

/-- What an option was given. -/
inductive Setting where
  | text (s : String)
  | flag (b : Bool)
  deriving DecidableEq, Repr

/-- The arguments of a command: its operands, and the options in the order in which they stand. -/
structure Arguments where
  operands : List String := []
  settings : List (String × Setting) := []
  deriving DecidableEq, Repr

namespace Arguments

/-! ## Reading -/

/-- What one argument is: an operand, options of which the last may await a value, or wrong. -/
inductive Word where
  | operand
  | options (found : List (String × Setting)) (awaiting : Option String)
  | wrong
  deriving DecidableEq, Repr

def find? (switches : List Switch) (name : String) : Option Switch :=
  switches.find? (·.names.contains name)

def longWord (switches : List Switch) (arg : List Char) : Word :=
  let (name, value) := Text.cutAt '=' arg
  match find? switches (String.ofList name) with
  | none => .wrong
  | some s =>
    match s.sets, value with
    | none, some v => .options [(s.key, .text (String.ofList v))] none
    | none, none => .options [] (some s.key)
    | some b, none => .options [(s.key, .flag b)] none
    | some _, some _ => .wrong

def shortWord (switches : List Switch) : List Char → Word
  | [] => .options [] none
  | c :: r =>
    match find? switches (String.ofList ['-', c]) with
    | none => .wrong
    | some s =>
      match s.sets with
      | none =>
        if r.isEmpty then .options [] (some s.key)
        else .options [(s.key, .text (String.ofList r))] none
      | some b =>
        match shortWord switches r with
        | .options found awaiting => .options ((s.key, .flag b) :: found) awaiting
        | other => other

def word (switches : List Switch) (arg : String) : Word :=
  match arg.toList with
  | '-' :: '-' :: r => longWord switches ('-' :: '-' :: r)
  | '-' :: c :: r => shortWord switches (c :: r)
  | _ => .operand

/-- Reads arguments, the first of which is the value of an option that awaits one. -/
def readFrom (switches : List Switch) (awaiting : Option String) :
    List String → Option Arguments
  | [] => if awaiting.isSome then none else some {}
  | arg :: rest =>
    match awaiting with
    | some key =>
      -- An awaited value is taken as it stands, even if it begins with a dash.
      (readFrom switches none rest).map fun a =>
        { a with settings := (key, .text arg) :: a.settings }
    | none =>
      if arg = "--" then some { operands := rest }
      else
        match word switches arg with
        | .wrong => none
        | .operand =>
          (readFrom switches none rest).map fun a => { a with operands := arg :: a.operands }
        | .options found awaiting' =>
          (readFrom switches awaiting' rest).map fun a =>
            { a with settings := found ++ a.settings }

def read? (switches : List Switch) (args : List String) : Option Arguments :=
  readFrom switches none args

/-! ## Looking up -/

def texts (a : Arguments) (key : String) : List String :=
  a.settings.filterMap fun (k, v) =>
    match v with
    | .text s => if k = key then some s else none
    | .flag _ => none

/-- The value that an option was given last. -/
def text? (a : Arguments) (key : String) : Option String := (a.texts key).getLast?

/-- What an option was set to last. -/
def flag? (a : Arguments) (key : String) : Option Bool :=
  (a.settings.filterMap fun (k, v) =>
    match v with
    | .flag b => if k = key then some b else none
    | .text _ => none).getLast?

def isSet (a : Arguments) (key : String) : Bool := (a.flag? key).getD false

end Arguments

end NullAccess
