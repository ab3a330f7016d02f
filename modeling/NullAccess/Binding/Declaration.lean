import NullAccess.Pattern.Search

/-!
# Declarations

The forms in which JavaScript code on one line declares functions and variables, and the calling
conventions under which a parameter is always given.
-/

namespace NullAccess.Declaration

open Pattern

def declarator : Pattern := edge ++ anyOf ["const", "let", "var"] ++ gap

def async? : Pattern := opt (lit "async" ++ gap)

/-- A parameter list in parentheses; its text is group `n`. -/
def params (n : Nat) : Pattern := chr '(' ++ group n (many (noneOf ")")) ++ chr ')'

/-- A plain name; its text is group `n`. -/
def plainName (n : Nat) : Pattern :=
  group n (one Text.isNameStart ++ many (one Text.isNameChar))

/-- `function name(params)`, where the name may be missing: name 1, parameters 2. -/
def function : Pattern :=
  edge ++ lit "function" ++ edge ++ blanks ++ opt (chr '*') ++ blanks ++
    group 1 (many (one Text.isNameChar)) ++ blanks ++ params 2

/-- `const name = `, possibly followed by `async`: name 1. -/
def assigned : Pattern :=
  declarator ++ group 1 nameChars ++ blanks ++ chr '=' ++ blanks ++ async?

/-- `const name = (params) =>`: name 1, parameters 2. -/
def arrow : Pattern := assigned ++ params 2 ++ blanks ++ lit "=>"

/-- `const name = param =>`: name 1, parameter 2. -/
def arrowSingle : Pattern := assigned ++ plainName 2 ++ blanks ++ lit "=>"

/-- `app.get(path, (params) =>` and the like: parameters 1. -/
def route : Pattern :=
  edge ++ anyOf ["app", "router"] ++ chr '.' ++
    anyOf ["get", "post", "put", "patch", "delete", "use", "all"] ++ blanks ++ chr '(' ++
    some1 (noneOf ",") ++ chr ',' ++ blanks ++ async? ++ params 1 ++ blanks ++ lit "=>"

/-- `const name: type = initialiser`: name 1, initialiser 2.  The sign is not that of a comparison
or an arrow. -/
def variableInit : Pattern :=
  declarator ++ plainName 1 ++ blanks ++ opt (chr ':' ++ blanks ++ some1Few (noneOf "=")) ++
    chr '=' ++ ahead false (oneOf "=>") ++ blanks ++ group 2 (some1 inLine)

def forEachLoop : Pattern :=
  edge ++ lit "for" ++ blanks ++ opt (lit "await" ++ blanks) ++ chr '(' ++ blanks ++
    anyOf ["const", "let", "var"] ++ gap ++ few (noneOf ";") ++ edge ++ anyOf ["of", "in"] ++ edge

def listener : Pattern :=
  chr '.' ++ anyOf ["addEventListener", "removeEventListener", "on", "once"] ++ blanks ++ chr '('

/-- A text that ends where the callback of an array method begins. -/
def arrayCallback : Pattern :=
  chr '.' ++
    anyOf ["filter", "map", "forEach", "find", "findIndex", "findLast", "findLastIndex", "some",
      "every", "reduce", "reduceRight", "sort", "flatMap"] ++
    blanks ++ chr '(' ++ blanks ++ async? ++ stop

/-- A text that ends where the value of a name begins: name 1. -/
def assignedName : Pattern :=
  group 1 nameChars ++ blanks ++ oneOf ":=" ++ blanks ++ async? ++ stop

/-- An initialiser that reads one element by its number: path 1, number 2. -/
def indexed : Pattern :=
  start ++ group 1 (some1 (one fun c => Text.isNameChar c || c == '.')) ++ chr '[' ++
    group 2 (some1 (one Text.isDecimal)) ++ chr ']'

/-- A condition that compares the length of `path`: the comparison sign and the bound are given. -/
def lengthCheck (path : List Char) (sign : String) (bound : Nat) : Pattern :=
  lit "if" ++ blanks ++ chr '(' ++ many (noneOf ")") ++ text path ++ many (noneOf ")") ++
    lit ".length" ++ blanks ++ lit sign ++ blanks ++ text (Nat.toDigits 10 bound) ++ edge

/-! ## Event handlers -/

/-- A name that begins as a handler's: `on` or `handle`, then a capital, `_` or nothing. -/
def handlerOpening : Pattern :=
  start ++ anyOf ["on", "handle"] ++ ((one fun c => c.isUpper || c == '_') <|> stop)

def handlerEnding : Pattern :=
  (anyCase "handler" <|> anyCase "listener" <|> anyCase "callback" <|> anyCase "menu") ++ stop

def handlerWord : Pattern :=
  anyCase "click" <|> anyCase "submit" <|> anyCase "change" <|> anyCase "input" <|>
    anyCase "keydown" <|> anyCase "keyup" <|> anyCase "mouse" <|> anyCase "scroll" <|>
    anyCase "resize"

def isHandlerName (name : List Char) : Bool :=
  !name.isEmpty &&
    (handlerOpening.occursIn name || handlerEnding.occursIn name || handlerWord.occursIn name)

end NullAccess.Declaration
