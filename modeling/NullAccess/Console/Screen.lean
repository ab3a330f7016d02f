import NullAccess.Console.Layout
import NullAccess.Console.Markup

/-!
# The console

What the program prints is a list of lines.  A table shows as rows of cells between bars, without
rules between them, and a panel as a title and lines between bars.  Inside a box every run of blanks
is one blank.  The console has a width: what is reported is cut there, cells are fitted into the
columns of their table, and only short messages run on.
-/

namespace NullAccess.Screen

def width : Nat := 4000

def isBox (c : Char) : Bool := 0x2500 ≤ c.toNat && c.toNat ≤ 0x257F

/-- Every run of a character becomes one of it.  `held` says that the last character was one. -/
def squash (ch : Char) (held : Bool) : List Char → List Char
  | [] => []
  | c :: r =>
    if c = ch then if held then squash ch true r else ch :: squash ch true r
    else c :: squash ch false r

def thin (c : Char) : Char :=
  if c = '━' then '─' else if c = '┃' then '│' else c

/-- A line of a box in its plainest form: a line that only draws is left out. -/
def boxLine? (l : Line) : Option Line :=
  if l.all fun c => isBox c || c == ' ' then none
  else some (squash ' ' false (squash '─' false ((Text.trim l).map thin)))

/-- A line as it is kept: one that begins with a box is a line of that box. -/
def settle? (l : Line) : Option Line :=
  match Text.trimLeft l with
  | c :: _ => if isBox c then boxLine? l else some l
  | [] => some l

/-- Controls that the console does not print. -/
def isSilent (c : Char) : Bool :=
  c == '\x07' || c == '\x08' || c == '\x0b' || c == '\x0c' || c == '\r'

/-- Tabs reach to the next column that is a multiple of eight. -/
def expandTabs (column : Nat) : Line → Line
  | [] => []
  | c :: r =>
    if c = '\t' then
      let gap := 8 - column % 8
      List.replicate gap ' ' ++ expandTabs (column + gap) r
    else c :: expandTabs (column + 1) r

def literal (t : List Char) : List Line :=
  (Text.splitOn '\n' (t.filter (!isSilent ·))).map (expandTabs 0)

/-- The lines of printed text, each cut at the width of the console. -/
def plain (t : List Char) : List String :=
  (((literal t).map (Layout.fit .fold width)).filterMap settle?).map String.ofList

def print (markup : String) : List String := plain (Markup.shown markup)

/-- The lines of a message, however wide they are. -/
def message (markup : String) : List String :=
  ((literal (Markup.shown markup)).filterMap settle?).map String.ofList

def rowLine (cells : List (List Line)) (i : Nat) : Line :=
  ['│', ' '] ++ Text.joinWith [' ', '│', ' '] (cells.map fun ls => (ls[i]?).getD []) ++ [' ', '│']

def row (cells : List (List Line)) : List String :=
  let height := (cells.map List.length).foldl max 1
  (((List.range height).map (rowLine cells)).filterMap boxLine?).map String.ofList

def cell (markup : String) : List Line := literal (Markup.shown markup)

def textCell (s : String) : List Line := literal s.toList

/-- The lines of a cell in a column of a width.  A column with a share breaks long words. -/
def fitCell (c : Layout.Column) (w : Nat) (lines : List Line) : List Line :=
  lines.flatMap (Layout.wrap (if c.share.isSome then .fold else .mark) (w - Layout.padding))

/-- A table: its header and its rows.  Every column has a bar beside it, and one more stands at the
end. -/
def table (columns : List Layout.Column) (rows : List (List (List Line))) : List String :=
  let all := columns.map (fun c => [c.title.toList]) :: rows
  let contents := columns.mapIdx fun i c => (c, rows.map fun r => (r[i]?).getD [])
  let widths := Layout.widths (width - columns.length - 1) contents
  all.flatMap fun r =>
    row (((columns.zip widths).zip r).map fun ((c, w), lines) => fitCell c w lines)

/-- A panel with a title, around markup.  Its lines are cut where the panel ends. -/
def panel (title : String) (body : String) : List String :=
  let top := s!"╭─ {String.ofList (Markup.shown title)} ─╮"
  top :: (cell body).flatMap fun l => row [[Layout.fit .fold (width - 2 - Layout.padding) l]]

end NullAccess.Screen
