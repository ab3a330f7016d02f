import NullAccess.Guard.Zone
import NullAccess.Pattern.Search

/-!
# The forms of guards

For a name, the patterns of the statements that guard it.  The name counts as a whole value where it
is neither part of a longer name or path nor itself dereferenced.
-/

namespace NullAccess.Guard

open Pattern

/-- A character that continues a path to the left. -/
def isPathChar (c : Char) : Bool := Text.isNameChar c || c == '.'

/-- The name where no longer name or path ends in it. -/
def reference (name : List Char) : Pattern := behind false isPathChar ++ text name

/-- A place where the name before it is not dereferenced or continued. -/
def whole : Pattern := ahead false (one fun c => isPathChar c || c == '[')

def operand (name : List Char) : Pattern := reference name ++ whole

def ifOpen : Pattern := edge ++ lit "if" ++ blanks ++ chr '('

def inParens : Pattern := many (noneOf ")")

def absent : Pattern := anyOf ["null", "undefined"]

def equals : Pattern := lit "==" ++ opt (chr '=')

def differs : Pattern := lit "!=" ++ opt (chr '=')

/-- What follows the condition of a guard that leaves on the same line. -/
def exitClause (exits : List String) : Pattern :=
  chr ')' ++ blanks ++ opt (chr '{') ++ blanks ++ anyOf exits ++ edge ++
    many (one fun c => c != ';' && c != '}') ++ opt (chr ';') ++ blanks ++ opt (chr '}')

def shapes (name : List Char) : GuardKind → List Pattern
  | .earlyReturn =>
    [ifOpen ++ inParens ++ chr '!' ++ blanks ++ operand name ++ inParens ++
       exitClause ["return", "throw", "continue", "break"],
     ifOpen ++ blanks ++ operand name ++ blanks ++ equals ++ blanks ++ absent ++ blanks ++
       exitClause ["return", "throw"]]
  | .truthiness =>
    [ifOpen ++ blanks ++ opt (chr '!') ++ blanks ++ operand name ++ blanks ++ chr ')']
  | .compound =>
    [ifOpen ++ inParens ++
       ((operand name ++ blanks ++ lit "&&") <|> (lit "&&" ++ blanks ++ operand name)) ++
       inParens ++ chr ')']
  | .explicitAbsence =>
    [ifOpen ++ blanks ++ operand name ++ blanks ++ differs ++ blanks ++ absent ++ edge,
     ifOpen ++ blanks ++ absent ++ blanks ++ differs ++ blanks ++ operand name,
     ifOpen ++ blanks ++ lit "typeof" ++ gap ++ operand name ++ blanks ++ differs ++ blanks ++
       oneOf "'\"" ++ lit "undefined" ++ oneOf "'\""]
  | .loop =>
    [edge ++ lit "while" ++ blanks ++ chr '(' ++ blanks ++ operand name ++ blanks ++
       opt (lit "&&" ++ inParens) ++ chr ')',
     edge ++ lit "for" ++ blanks ++ chr '(' ++ many (noneOf ";") ++ chr ';' ++ many (noneOf ";") ++
       operand name ++ many (noneOf ";") ++ chr ';']
  | .earlyReturnBlock =>
    [ifOpen ++ blanks ++
       ((chr '!' ++ blanks ++ operand name) <|>
         (operand name ++ blanks ++ equals ++ blanks ++ absent)) ++
       blanks ++ chr ')' ++ blanks ++ chr '{' ++ blanks ++ stop]
  | .defaultCoalesce =>
    [reference name ++ blanks ++ chr '=' ++ blanks ++ operand name ++ blanks ++ anyOf ["||", "??"],
     reference name ++ blanks ++ anyOf ["??=", "||="]]
  | .optionalAccess => [reference name ++ lit "?."]

/-- The first match of a form of guard, its patterns tried in order. -/
def find? (name : List Char) (kind : GuardKind) (line : List Char) : Option Pattern.Match :=
  (shapes name kind).findSome? (·.find? line)

/-- A statement that leaves the function, at the beginning of a line. -/
def exitStatement : Pattern := start ++ blanks ++ anyOf ["return", "throw"] ++ edge

end NullAccess.Guard
