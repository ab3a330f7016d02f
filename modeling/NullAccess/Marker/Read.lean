import NullAccess.Fault
import NullAccess.Marker.Basic
import NullAccess.Pattern.Search
import NullAccess.Text.Lines

/-!
# Reading markers

The marker of a line is written in the block of `//` lines directly above it; any other line, a
blank one too, ends the block.  Each line of the block is read for the first tag that it holds, in a
fixed order of tags.
-/

namespace NullAccess.Marker

open Pattern

/-! ## Tags -/

def isIdChar (c : Char) : Bool := Text.isWord c || c == '-'

/-- A `//` line; its text is group 1. -/
def commentLine : Pattern :=
  start ++ blanks ++ lit "//" ++ opt (one Text.isBlank) ++ group 1 (many inLine) ++ stop

def ignoreTag : Pattern := lit "@validation-ignore" ++ gap ++ group 1 (some1 (one isIdChar))

def reasonTag : Pattern := lit "@reason:" ++ blanks ++ group 1 (some1 inLine)

/-- `@dependency: function() at line 15 [in file]`, where the parentheses and the file may be
missing. -/
def dependencyTag : Pattern :=
  lit "@dependency:" ++ blanks ++
    group 1 (some1 (one fun c => Text.isNameChar c || c == '.')) ++ blanks ++ opt (lit "()") ++
    gap ++ lit "at" ++ gap ++ lit "line" ++ gap ++ group 2 (some1 (one Text.isDecimal)) ++
    opt (gap ++ opt (chr '[') ++ lit "in" ++ gap ++
      group 3 (some1 (one fun c => c != ']' && !Text.isBlank c)) ++ opt (chr ']'))

def whitelistIdTag : Pattern := lit "@whitelist-id:" ++ blanks ++ group 1 (some1 (one isIdChar))

def providerTag : Pattern :=
  lit "@validation-dependency" ++ gap ++
    group 1 (some1 (one fun c => isIdChar c || Text.isBlank c || c == ','))

def requiredByTag : Pattern := lit "@required-by:" ++ blanks ++ group 1 (some1 inLine)

def contractTag : Pattern := lit "@contract:" ++ blanks ++ group 1 (some1 inLine)

/-- The text of a `//` line without the blanks around it. -/
def commentText? (l : Line) : Option (List Char) :=
  (commentLine.matchStart? l).map fun m => Text.trim (m.group 1)

/-! ## Blocks -/

/-- A block of `//` lines: its texts from top to bottom, and the number of its first line. -/
structure Block where
  texts : List (List Char) := []
  firstLine : Option Int := none
  deriving DecidableEq, Repr

/-- The texts of the `//` lines at the head of a list. -/
def leadingTexts : List Line → List (List Char)
  | [] => []
  | l :: rest =>
    match commentText? l with
    | some t => t :: leadingTexts rest
    | none => []

/-- The block that ends directly above line `n`, from its texts, the lowest first. -/
def Block.above (n : Int) (upwards : List (List Char)) : Block :=
  { texts := upwards.reverse,
    firstLine := if upwards.isEmpty then none else some (n - upwards.length) }

/-- The block directly above line `n`.  Line `n` may be one past the end of the file, but not
more. -/
def blockAbove (lines : List Line) (n : Int) : Except Fault Block :=
  if n ≤ 1 then .ok {}
  else if lines.length < (n - 1).toNat then .error .noSuchLine
  else .ok (.above n (leadingTexts (lines.take (n - 1).toNat).reverse))

/-! ## Consumer markers -/

/-- The dependency that a match of its tag describes.  Its line number may be too long. -/
def dependencyOf (m : Pattern.Match) : Except Fault DependencyRef :=
  match Text.readNumeral? (m.group 2) with
  | none => .error .longNumeral
  | some n =>
    .ok { function := String.ofList (m.group 1), line := n, file := (m.group? 3).map String.ofList }

def readConsumer (c : ConsumerMarker) (t : List Char) : Except Fault ConsumerMarker :=
  -- A line counts for its first tag only.  A later line replaces what an earlier one said under the
  -- same tag, except that functions add up.
  match ignoreTag.find? t with
  | some m => .ok { c with found := true, category := some (String.ofList (m.group 1)) }
  | none =>
    match reasonTag.find? t with
    | some m => .ok { c with reason := some (String.ofList (Text.trim (m.group 1))) }
    | none =>
      match dependencyTag.find? t with
      | some m => (dependencyOf m).map fun d => { c with dependencies := c.dependencies ++ [d] }
      | none =>
        match whitelistIdTag.find? t with
        | some m => .ok { c with whitelistId := some (String.ofList (m.group 1)) }
        | none => .ok c

def readConsumers (c : ConsumerMarker) : List (List Char) → Except Fault ConsumerMarker
  | [] => .ok c
  | t :: rest =>
    match readConsumer c t with
    | .error f => .error f
    | .ok c' => readConsumers c' rest

def consumerOf (b : Block) : Except Fault ConsumerMarker :=
  readConsumers { commentStartLine := b.firstLine } b.texts

def consumer (lines : List Line) (n : Int) : Except Fault ConsumerMarker :=
  match blockAbove lines n with
  | .error f => .error f
  | .ok b => consumerOf b

/-! ## Provider markers -/

/-- The names in a list that commas or blanks divide. -/
def names (t : List Char) : List String :=
  let parts := t.foldr (fun c held =>
    if c == ',' || Text.isBlank c then [] :: held
    else match held with
      | [] => [[c]]
      | first :: rest => (c :: first) :: rest) [[]]
  (parts.filter fun p => !p.isEmpty).map String.ofList

def readProvider (p : ProviderMarker) (t : List Char) : ProviderMarker :=
  match providerTag.find? t with
  | some m => { p with found := true, whitelistIds := p.whitelistIds ++ names (m.group 1) }
  | none =>
    match requiredByTag.find? t with
    | some m =>
      { p with requiredBy := p.requiredBy ++ [String.ofList (Text.trim (m.group 1))] }
    | none =>
      match contractTag.find? t with
      | some m => { p with contract := some (String.ofList (Text.trim (m.group 1))) }
      | none => p

def providerOf (b : Block) : ProviderMarker := b.texts.foldl readProvider {}

def provider (lines : List Line) (n : Int) : Except Fault ProviderMarker :=
  (blockAbove lines n).map providerOf

/-! ## All markers of a file -/

/-- The marked lines from line `n` on.  `upwards` holds the texts of the `//` lines directly above
line `n`, the lowest first. -/
def findFrom (upwards : List (List Char)) (n : Int) :
    List Line → Except Fault (List (Int × ConsumerMarker))
  | [] => .ok []
  | l :: rest =>
    match commentText? l with
    -- A `//` line is never marked itself; it belongs to the block of a line further down.
    | some t => findFrom (t :: upwards) (n + 1) rest
    | none =>
      match consumerOf (.above n upwards) with
      | .error f => .error f
      | .ok marker =>
        match findFrom [] (n + 1) rest with
        | .error f => .error f
        | .ok later =>
          .ok (if !upwards.isEmpty && marker.found then (n, marker) :: later else later)

/-- The lines that a consumer marker stands above, with their markers. -/
def findAll (lines : List Line) : Except Fault (List (Int × ConsumerMarker)) := findFrom [] 1 lines

end NullAccess.Marker
