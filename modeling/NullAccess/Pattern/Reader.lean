import NullAccess.Pattern.Class
import NullAccess.Pattern.Flaw

/-!
# The written form of patterns

Rules carry their patterns as text.  This module reads that text: characters stand for themselves,
`.` for any character of a line, `^` and `$` for the ends, `[...]` for a class, `(...)` for
grouping, `|` for a choice, and `*`, `+`, `?` and a bound in braces for repetition, with a further
`?` for the reluctant form and a further `+` for the one that gives nothing back.  A parenthesis
with a question mark behind it introduces the other groups: those that are not kept, that have a
name, that look ahead or back, that depend on another group, or that set a mode.

Every reader takes a bound on the number of steps and returns the signs it left unread; the bound is
a multiple of the number of signs, because at least one of a few steps reads a sign.
-/

namespace NullAccess.Pattern

/-! ## Modes -/

/-- The modes that a group sets: for the whole pattern, or on and off for itself. -/
inductive Setting where
  | whole (m : Mode)
  | part (on off : Mode)

/-- Letters of modes up to one of the signs that may end them: what they set, that sign, and the
rest. -/
def readLetters (ending : Char → Bool) : Mode → List Sign → Option (Mode × Char × List Sign)
  | held, .plain c :: r =>
    if ending c then some (held, c, r)
    else (Mode.ofLetter? c).bind fun m => readLetters ending (held.both m) r
  | _, _ => none

/-- The modes that a group unsets, given those that it sets. -/
def readOff (on : Mode) (t : List Sign) : Option (Setting × List Sign) :=
  match readLetters (· == ':') {} t with
  | some (off, _, r) =>
    if off = {} || off.ascii || off.allScripts || off.single || on.meets off then none
    else some (.part on off, r)
  | none => none

/-- The modes that a group sets, after the question mark. -/
def readSetting (t : List Sign) : Option (Setting × List Sign) :=
  match t with
  | .plain '-' :: r => readOff {} r
  | _ =>
    match readLetters (fun c => c == ')' || c == '-' || c == ':') {} t with
    | none => none
    | some (on, ending, r) =>
      if on = {} || (on.ascii && on.allScripts) then none
      else if ending = ')' then some (.whole on, r)
      else if on.single then none
      else if ending = ':' then some (.part on {}, r)
      else readOff on r

/-- What follows a comment that runs to the end of a line. -/
def pastLine : List Sign → List Sign
  | [] => []
  | x :: r => if x = .plain '\n' then r else pastLine r

/-- What follows a comment that runs to a closing parenthesis. -/
def pastRemark : List Sign → Option (List Sign)
  | [] => none
  | x :: r => if x = .plain ')' then some r else pastRemark r

/-- The modes of the whole pattern, which are set before anything else is written, and the rest. -/
def readPreface : Nat → Mode → List Sign → Mode × List Sign
  | 0, m, t => (m, t)
  | n + 1, m, t =>
    match t with
    | .plain '(' :: .plain '?' :: .plain '#' :: r =>
      match pastRemark r with
      | some rest => readPreface n m rest
      | none => (m, t)
    | .plain '(' :: .plain '?' :: r =>
      match readSetting r with
      | some (.whole on, rest) => readPreface n (m.both on) rest
      | _ => (m, t)
    | .plain c :: r =>
      if m.spaced && Mode.isAsciiBlank c then readPreface n m r
      else if m.spaced && c == '#' then readPreface n m (pastLine r)
      else (m, t)
    | _ => (m, t)

/-! ## Repetition -/

/-- How often something is repeated: a least number, and a greatest one if there is a limit. -/
structure Bound where
  least : Nat
  most : Option Nat

/-- Which numbers of repetitions are tried: more first, fewer first, or only the greatest number
that matches, each repetition with its preferred end. -/
inductive Greed where
  | more
  | fewer
  | most

/-- The number of repetitions beyond which no bound may go. -/
def maxBound : Nat := Nat.pow 2 32 - 1

/-- At most so many repetitions behind those that have to be. -/
def optional (a : Pattern) (b : Bound) : Greed → Pattern
  | .fewer => b.most.elim (few a) fun m => upToFew (m - b.least) a
  | _ => b.most.elim (many a) fun m => if m - b.least = 1 then opt a else upTo (m - b.least) a

def repeatedBy (a : Pattern) (b : Bound) (greed : Greed) : Pattern :=
  if b.most = some b.least then times b.least a
  else if b.least = 0 then optional a b greed
  else if b.least = 1 then a ++ optional a b greed
  else times b.least a ++ optional a b greed

def repeated (a : Pattern) (b : Bound) : Greed → Pattern
  | .most => atomic (repeatedBy (atomic a) b .most)
  | greed => repeatedBy a b greed

/-- The number that the digits of a bound denote, if there are any. -/
def readLimit (digits : List Char) : Except Flaw (Option Nat) :=
  if digits.isEmpty then .ok none
  else if Text.maxDigits < digits.length then .error .tooLong
  else
    let n := valueIn 10 digits
    if maxBound ≤ n then .error .tooMany else .ok (some n)

/-- A bound in braces, after the opening brace.  Braces that hold no bound stand for themselves. -/
def readBraces (t : List Sign) : Except Flaw (Option (Bound × List Sign)) :=
  let (low, rest) := takeDigits Char.isDigit t.length t
  let bound (least most : List Char) (r : List Sign) :
      Except Flaw (Option (Bound × List Sign)) := do
    let lo ← readLimit least
    let hi ← readLimit most
    if hi.any (· < lo.getD 0) then .error .malformed else .ok (some (⟨lo.getD 0, hi⟩, r))
  match rest with
  | .plain '}' :: r => if low.isEmpty then .ok none else bound low low r
  | .plain ',' :: r =>
    match takeDigits Char.isDigit r.length r with
    | (high, .plain '}' :: r') => bound low high r'
    | _ => .ok none
  | _ => .ok none

/-- The repetition that a character introduces, if it does. -/
def readBound (c : Char) (rest : List Sign) : Except Flaw (Option (Bound × List Sign)) :=
  match c with
  | '*' => .ok (some (⟨0, none⟩, rest))
  | '+' => .ok (some (⟨1, none⟩, rest))
  | '?' => .ok (some (⟨0, some 1⟩, rest))
  | '{' => readBraces rest
  | _ => .ok none

/-! ## Parts -/

/-- How many characters a pattern reads: at least and at most. -/
structure Width where
  least : Nat
  most : Nat
  deriving DecidableEq, Repr

namespace Width

/-- A width beyond all texts. -/
def limit : Nat := Nat.pow 2 64

def zero : Width := ⟨0, 0⟩

def one : Width := ⟨1, 1⟩

def capped (w : Width) : Width := ⟨min w.least limit, min w.most limit⟩

def add (v w : Width) : Width := ⟨v.least + w.least, v.most + w.most⟩

def join (v w : Width) : Width := ⟨min v.least w.least, max v.most w.most⟩

def times (w : Width) (b : Bound) : Width :=
  ⟨w.least * b.least, b.most.elim (if w.most = 0 then 0 else limit) (w.most * ·)⟩

end Width

/-- What a part of a sequence is, as far as repetition is concerned. -/
inductive Kind where
  /-- It can be repeated. -/
  | item
  /-- It is a place, of which there is no repetition. -/
  | place
  /-- It is a repetition, which cannot be repeated directly. -/
  | repetition
  deriving DecidableEq, Repr

/-- A part of a sequence. -/
structure Part where
  pattern : Pattern
  width : Width := Width.zero
  kind : Kind := .item

namespace Part

def char (a : Pattern) : Part := { pattern := a, width := Width.one }

def place (a : Pattern) : Part := { pattern := a, kind := .place }

/-- Parts one after the other, given the last one first. -/
def sequence (held : List Part) : Part :=
  { pattern := held.foldl (fun rest a => a.pattern ++ rest) nothing
    width := (held.foldl (fun w a => w.add a.width) Width.zero).capped }

def choice (a b : Part) : Part :=
  { pattern := alt a.pattern b.pattern, width := a.width.join b.width }

/-- The repetition of a part, if it can be repeated. -/
def repeated (m : Mode) (b : Bound) (greed : Greed) : List Part → Except Flaw (List Part)
  | a :: rest =>
    if a.kind = .item ∧ !m.single then
      .ok ({ pattern := Pattern.repeated a.pattern b greed, width := a.width.times b
             kind := .repetition } :: rest)
    else .error .malformed
  | [] => .error .malformed

end Part

/-! ## Groups -/

/-- The groups that were opened so far. -/
structure Groups where
  /-- Their widths in the order of opening; a group that is still open has none. -/
  widths : List (Option Width) := []
  names : List (List Char × Nat) := []
  /-- The numbers that a condition asked for. -/
  asked : List Nat := []

namespace Groups

/-- Opens a group, perhaps under a name, which must be new. -/
def opened (g : Groups) (name : Option (List Char)) : Option (Nat × Groups) :=
  let n := g.widths.length + 1
  let g' := { g with widths := g.widths ++ [none] }
  match name with
  | none => some (n, g')
  | some name =>
    if g.names.any (·.1 == name) then none
    else some (n, { g' with names := (name, n) :: g.names })

def closed (g : Groups) (n : Nat) (w : Width) : Groups :=
  { g with widths := g.widths.set (n - 1) (some w) }

def width? (g : Groups) (n : Nat) : Option Width :=
  if n = 0 then none else (g.widths[n - 1]?).join

def number? (g : Groups) (name : List Char) : Option Nat := g.names.lookup name

end Groups

def beginsName (c : Char) : Bool := Text.isWord c && !Text.isFigure c

def continuesName (c : Char) : Bool := Text.isWord c && (Text.isDecimal c || !Text.isFigure c)

def isName : List Char → Bool
  | [] => false
  | c :: r => beginsName c && r.all continuesName

/-- The characters up to one that ends them, if there are any. -/
def readUntil (ending : Char) (t : List Sign) : Option (List Char × List Sign) :=
  let rec go (held : List Char) : List Sign → Option (List Char × List Sign)
    | .plain c :: r =>
      if c = ending then if held.isEmpty then none else some (held.reverse, r)
      else go (c :: held) r
    | _ => none
  go [] t

/-- Where a reader stands: the mode, the number of groups that may be asked for when looking back,
and how deeply groups are nested. -/
structure Setup where
  mode : Mode
  fence : Option Nat := none
  depth : Nat := 0

namespace Setup

/-- The depth beyond which nothing is read. -/
def maxDepth : Nat := 980

def deeper (x : Setup) (n : Nat) : Setup := { x with depth := x.depth + n }

/-- Inside a group that looks back from where some groups were opened. -/
def backward (x : Setup) (g : Groups) : Setup :=
  { x with fence := some (x.fence.getD (g.widths.length + 1)) }

/-- Whether a group may be asked for: looking back, it must be closed and from outside. -/
def mayAsk (x : Setup) (g : Groups) (n : Nat) : Bool :=
  x.fence.all fun fence => (g.width? n).isSome && n < fence

end Setup

def readAgain (x : Setup) (g : Groups) (n : Nat) : Except Flaw Part :=
  match g.width? n with
  | some w =>
    if x.mayAsk g n then .ok { pattern := again x.mode.same n, width := w } else .error .malformed
  | none => .error .malformed

/-- What a backslash and a digit other than zero stand for: three octal digits are a character, and
otherwise one or two digits are the number of a group. -/
def readReference (x : Setup) (g : Groups) (c : Char) (rest : List Sign) :
    Except Flaw (Part × List Sign) :=
  let char (digits : List Char) (r : List Sign) : Except Flaw (Part × List Sign) :=
    let code := valueIn 8 digits
    if code ≤ maxOctal then .ok (.char (x.mode.char code), r) else .error .malformed
  let group (digits : List Char) (r : List Sign) : Except Flaw (Part × List Sign) :=
    (readAgain x g (valueIn 10 digits)).map fun a => (a, r)
  match takeDigits Char.isDigit 1 rest with
  | ([], _) => group [c] rest
  | (second, r) =>
    match takeDigits isOctal 1 r with
    | ([], _) => group (c :: second) r
    | (third, r') =>
      if isOctal c && second.all isOctal then char (c :: second ++ third) r'
      else group (c :: second) r

/-- What a backslash and the character after it stand for outside a class. -/
def readEscape (x : Setup) (g : Groups) (c : Char) (rest : List Sign) :
    Except Flaw (Part × List Sign) :=
  match namedClass? x.mode c with
  | some p => .ok (.char (one p), rest)
  | none =>
    match c with
    | 'A' => .ok (.place start, rest)
    | 'Z' => .ok (.place Mode.veryEnd, rest)
    | 'b' => .ok (.place (x.mode.border true), rest)
    | 'B' => .ok (.place (x.mode.border false), rest)
    | '0' =>
      let (digits, r) := takeDigits isOctal 2 rest
      .ok (.char (x.mode.char (valueIn 8 digits)), r)
    | _ =>
      if c.isDigit then readReference x g c rest
      else
        match readEscapedCode c rest with
        | some (n, r) => .ok (.char (x.mode.char n), r)
        | none => .error .malformed

/-- The group that a condition names, by its name or its number. -/
def readCondition (x : Setup) (g : Groups) (t : List Sign) :
    Except Flaw (Nat × Groups × List Sign) :=
  match readUntil ')' t with
  | none => .error .malformed
  | some (name, r) =>
    let found : Option (Nat × Groups) :=
      if isName name then (g.number? name).map fun n => (n, g)
      else
        match Text.readSigned? 10 name with
        | some n => if 0 < n then some (n.toNat, { g with asked := n.toNat :: g.asked }) else none
        | none => none
    match found with
    | some (n, g') => if x.mayAsk g n then .ok (n, g', r) else .error .malformed
    | none => .error .malformed

/-- What a reader of parts returns: a part, the groups, and the signs left unread. -/
abbrev Read := Part × Groups × List Sign

def closedBy : List Sign → Except Flaw (List Sign)
  | .plain ')' :: r => .ok r
  | _ => .error .malformed

/-- A look back over a pattern, which must be of one width. -/
def lookBack (wanted : Bool) (a : Part) : Except Flaw Part :=
  if a.width.least = a.width.most ∧ a.width.least ≤ maxBound then
    .ok { pattern := back wanted a.width.least a.pattern }
  else .error .malformed

mutual

/-- A choice, up to the end of the signs or a closing parenthesis. -/
def readChoice : Nat → Setup → Groups → List Sign → Except Flaw Read
  | 0, _, _, _ => .error .malformed
  | n + 1, x, g, t =>
    match readSequence n x g [] t with
    | .error e => .error e
    | .ok (a, g', .plain '|' :: r) =>
      match readChoice n x g' r with
      | .error e => .error e
      | .ok (b, g'', rest) => .ok (a.choice b, g'', rest)
    | .ok found => .ok found

/-- A sequence of parts, up to the end of the signs, a bar or a closing parenthesis.  The parts read
so far are held, the last one first. -/
def readSequence : Nat → Setup → Groups → List Part → List Sign → Except Flaw Read
  | 0, _, _, _, _ => .error .malformed
  | n + 1, x, g, held, t =>
    match t with
    | [] => .ok (.sequence held, g, [])
    | .escaped c :: r =>
      match readEscape x g c r with
      | .error e => .error e
      | .ok (a, rest) => readSequence n x g (a :: held) rest
    | .plain c :: r =>
      if c = '|' || c = ')' then .ok (.sequence held, g, t)
      else if x.mode.spaced && Mode.isAsciiBlank c then readSequence n x g held r
      else if x.mode.spaced && c = '#' then readSequence n x g held (pastLine r)
      else
        match c with
        | '(' =>
          match readGroup n x g r with
          | .error e => .error e
          | .ok (none, g', rest) => readSequence n x g' held rest
          | .ok (some a, g', rest) => readSequence n x g' (a :: held) rest
        | '[' =>
          match readClass x.mode r with
          | none => .error .malformed
          | some (a, rest) => readSequence n x g (.char a :: held) rest
        | '.' => readSequence n x g (.char x.mode.dot :: held) r
        | '^' => readSequence n x g (.place x.mode.first :: held) r
        | '$' => readSequence n x g (.place x.mode.last :: held) r
        | _ =>
          match readBound c r with
          | .error e => .error e
          | .ok none => readSequence n x g (.char (x.mode.char c.toNat) :: held) r
          | .ok (some (b, rest)) =>
            let (greed, rest) : Greed × List Sign := match rest with
              | .plain '?' :: r' => (.fewer, r')
              | .plain '+' :: r' => (.most, r')
              | _ => (.more, rest)
            match Part.repeated x.mode b greed held with
            | .error e => .error e
            | .ok held => readSequence n x g held rest

/-- A group, after its opening parenthesis.  A comment is no part. -/
def readGroup : Nat → Setup → Groups → List Sign → Except Flaw (Option Part × Groups × List Sign)
  | 0, _, _, _ => .error .malformed
  | n + 1, x, g, t =>
    match t with
    | .plain '?' :: .plain 'P' :: .plain '<' :: r =>
      match readUntil '>' r with
      | some (name, rest) =>
        if isName name then readKept n x g (some name) rest else .error .malformed
      | none => .error .malformed
    | .plain '?' :: .plain 'P' :: .plain '=' :: r =>
      match readUntil ')' r with
      | some (name, rest) =>
        match g.number? name with
        | some k => (readAgain x g k).map fun a => (some a, g, rest)
        | none => .error .malformed
      | none => .error .malformed
    | .plain '?' :: .plain ':' :: r => readClosed n x g .ok r
    | .plain '?' :: .plain '>' :: r =>
      readClosed n x g (fun a => .ok { a with pattern := atomic a.pattern }) r
    | .plain '?' :: .plain '#' :: r =>
      match pastRemark r with
      | some rest => .ok (none, g, rest)
      | none => .error .malformed
    | .plain '?' :: .plain '=' :: r =>
      readClosed n x g (fun a => .ok { pattern := ahead true a.pattern }) r
    | .plain '?' :: .plain '!' :: r =>
      readClosed n x g (fun a => .ok { pattern := ahead false a.pattern }) r
    | .plain '?' :: .plain '<' :: .plain '=' :: r =>
      readClosed n (x.backward g) g (lookBack true) r
    | .plain '?' :: .plain '<' :: .plain '!' :: r =>
      readClosed n (x.backward g) g (lookBack false) r
    | .plain '?' :: .plain '(' :: r =>
      match readCondition x g r with
      | .error e => .error e
      | .ok (k, g', rest) => readGiven n (x.deeper 1) g' k rest
    | .plain '?' :: r =>
      match readSetting r with
      | some (.part on off, rest) =>
        readClosed n { x with mode := x.mode.within on off } g .ok rest
      | _ => .error .malformed
    | _ => readKept n x g none t

/-- A group whose text is kept, after what introduces it. -/
def readKept : Nat → Setup → Groups → Option (List Char) → List Sign →
    Except Flaw (Option Part × Groups × List Sign)
  | 0, _, _, _, _ => .error .malformed
  | n + 1, x, g, name, t =>
    match g.opened name with
    | none => .error .malformed
    | some (k, g') =>
      match readClosed n x g' (fun a => .ok { a with pattern := group k a.pattern }) t with
      | .ok (some a, g'', rest) => .ok (some a, g''.closed k a.width, rest)
      | other => other

/-- The inside of a group and the parenthesis that closes it. -/
def readClosed : Nat → Setup → Groups → (Part → Except Flaw Part) → List Sign →
    Except Flaw (Option Part × Groups × List Sign)
  | 0, _, _, _, _ => .error .malformed
  | n + 1, x, g, wrap, t =>
    if Setup.maxDepth < x.depth then .error .tooDeep
    else
      match readChoice n (x.deeper 2) g t with
      | .error e => .error e
      | .ok (a, g', rest) => do
        let rest ← closedBy rest
        let a ← wrap { a with kind := .item }
        return (some a, g', rest)

/-- The two sides of a condition and the parenthesis that closes them. -/
def readGiven : Nat → Setup → Groups → Nat → List Sign →
    Except Flaw (Option Part × Groups × List Sign)
  | 0, _, _, _, _ => .error .malformed
  | n + 1, x, g, k, t =>
    if Setup.maxDepth < x.depth then .error .tooDeep
    else
      match readSequence n x g [] t with
      | .error e => .error e
      | .ok (a, g', .plain '|' :: r) =>
        match readSequence n x g' [] r with
        | .error e => .error e
        | .ok (b, g'', rest) => do
          let rest ← closedBy rest
          return (some { pattern := given k a.pattern b.pattern, width := a.width.join b.width },
            g'', rest)
      | .ok (a, g', rest) => do
        let rest ← closedBy rest
        return (some { pattern := given k a.pattern nothing, width := ⟨0, a.width.most⟩ }, g', rest)

end

/-! ## Whole patterns -/

def ofText (t : List Char) : Except Flaw Pattern := do
  let some all := signs? t | .error .malformed
  let (mode, rest) := readPreface all.length {} all
  let (a, g, left) ← readChoice (8 * all.length + 8) { mode } {} rest
  -- Modes that exclude each other are a flaw only of a pattern that can be read.
  if mode.ascii && mode.allScripts then .error .opposed
  else if !left.isEmpty || g.asked.any (g.widths.length < ·) then .error .malformed
  else .ok a.pattern

def ofString (s : String) : Except Flaw Pattern := ofText s.toList

end NullAccess.Pattern
