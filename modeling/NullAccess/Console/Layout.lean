import NullAccess.Decimal.Basic
import NullAccess.Text.Blank
import NullAccess.Text.Lines

/-!
# Layout

How text is fitted into columns.  A line that is too wide is broken before words, and a word that is
too wide for a line of its own is broken inside or cut.  A table is as wide as the console: columns
with a share divide what the others leave, and when those leave too little, the widest columns give
way first.
-/

namespace NullAccess.Layout

/-! ## Lines -/

/-- The ranges of characters that take two columns. -/
def wideRanges : List (Nat × Nat) :=
  [(0x1100, 0x115F), (0x231A, 0x231B), (0x2329, 0x232A), (0x23E9, 0x23EC), (0x23F0, 0x23F0),
   (0x23F3, 0x23F3), (0x25FD, 0x25FE), (0x2614, 0x2615), (0x2648, 0x2653), (0x267F, 0x267F),
   (0x2693, 0x2693), (0x26A1, 0x26A1), (0x26AA, 0x26AB), (0x26BD, 0x26BE), (0x26C4, 0x26C5),
   (0x26CE, 0x26CE), (0x26D4, 0x26D4), (0x26EA, 0x26EA), (0x26F2, 0x26F3), (0x26F5, 0x26F5),
   (0x26FA, 0x26FA), (0x26FD, 0x26FD), (0x2705, 0x2705), (0x270A, 0x270B), (0x2728, 0x2728),
   (0x274C, 0x274C), (0x274E, 0x274E), (0x2753, 0x2755), (0x2757, 0x2757), (0x2795, 0x2797),
   (0x27B0, 0x27B0), (0x27BF, 0x27BF), (0x2B1B, 0x2B1C), (0x2B50, 0x2B50), (0x2B55, 0x2B55),
   (0x2E80, 0x2E99), (0x2E9B, 0x2EF3), (0x2F00, 0x2FD5), (0x2FF0, 0x2FFB), (0x3000, 0x3029),
   (0x302E, 0x303E), (0x3041, 0x3096), (0x309B, 0x30FF), (0x3105, 0x312F), (0x3131, 0x318E),
   (0x3190, 0x31E3), (0x31F0, 0x321E), (0x3220, 0x3247), (0x3250, 0x4DBF), (0x4E00, 0xA48C),
   (0xA490, 0xA4C6), (0xA960, 0xA97C), (0xAC00, 0xD7A3), (0xF900, 0xFAFF), (0xFE10, 0xFE19),
   (0xFE30, 0xFE52), (0xFE54, 0xFE66), (0xFE68, 0xFE6B), (0xFF01, 0xFF60), (0xFFE0, 0xFFE6),
   (0x1F004, 0x1F004), (0x1F0CF, 0x1F0CF), (0x1F18E, 0x1F18E), (0x1F191, 0x1F19A),
   (0x1F200, 0x1F202), (0x1F210, 0x1F23B), (0x1F240, 0x1F248), (0x1F250, 0x1F251),
   (0x1F260, 0x1F265), (0x1F300, 0x1F320), (0x1F32D, 0x1F335), (0x1F337, 0x1F37C),
   (0x1F37E, 0x1F393), (0x1F3A0, 0x1F3CA), (0x1F3CF, 0x1F3D3), (0x1F3E0, 0x1F3F0),
   (0x1F3F4, 0x1F3F4), (0x1F3F8, 0x1F43E), (0x1F440, 0x1F440), (0x1F442, 0x1F4FC),
   (0x1F4FF, 0x1F53D), (0x1F54B, 0x1F54E), (0x1F550, 0x1F567), (0x1F57A, 0x1F57A),
   (0x1F595, 0x1F596), (0x1F5A4, 0x1F5A4), (0x1F5FB, 0x1F64F), (0x1F680, 0x1F6C5),
   (0x1F6CC, 0x1F6CC), (0x1F6D0, 0x1F6D2), (0x1F6D5, 0x1F6D7), (0x1F6EB, 0x1F6EC),
   (0x1F6F4, 0x1F6FC), (0x1F7E0, 0x1F7EB), (0x1F90C, 0x1F93A), (0x1F93C, 0x1F945),
   (0x1F947, 0x1F978), (0x1F97A, 0x1F9CB), (0x1F9CD, 0x1F9FF), (0x1FA70, 0x1FA74),
   (0x1FA78, 0x1FA7A), (0x1FA80, 0x1FA86), (0x1FA90, 0x1FAA8), (0x1FAB0, 0x1FAB6),
   (0x1FAC0, 0x1FAC2), (0x1FAD0, 0x1FAD6), (0x20000, 0x2FFFD), (0x30000, 0x3FFFD)]

/-- The number of columns that a character takes: none for a control or a common mark that joins the
character before it, two for a wide one. -/
def columnsOf (c : Char) : Nat :=
  let n := c.toNat
  if n < 0x20 ∨ (0x7F ≤ n ∧ n < 0xA0) ∨ (0x300 ≤ n ∧ n < 0x370) ∨ (0x200B ≤ n ∧ n < 0x2010) ∨
      (0xFE00 ≤ n ∧ n < 0xFE10) then 0
  else if n < 0x1100 then 1
  else if wideRanges.any fun (lo, hi) => lo ≤ n && n ≤ hi then 2
  else 1

def columns (l : Line) : Nat := l.foldl (fun n c => n + columnsOf c) 0

/-- What fits of a line in some columns.  A blank stands for half of a wide character. -/
def crop (n : Nat) : Line → Line
  | [] => []
  | c :: r =>
    let w := columnsOf c
    if w ≤ n then c :: crop (n - w) r else if n = 0 then [] else [' ']

/-- What is done with a word that is too wide for a line: it is broken, or it is cut and marked. -/
inductive Excess where
  | fold
  | mark
  deriving DecidableEq, Repr

def fit (x : Excess) (n : Nat) (l : Line) : Line :=
  if columns l ≤ n then l
  else
    match x with
    | .fold => crop n l
    | .mark => crop (n - 1) l ++ ['…']

/-- The first word of a text, with the blanks around it, and the rest. -/
def word (t : Line) : Line × Line :=
  let lead := t.takeWhile Text.isBlank
  let body := t.dropWhile Text.isBlank
  let rest := body.dropWhile (!Text.isBlank ·)
  (lead ++ body.takeWhile (!Text.isBlank ·) ++ rest.takeWhile Text.isBlank,
    rest.dropWhile Text.isBlank)

/-- The lengths of the parts of a word, each of which fits in `n` columns.  `length` characters that
take `used` columns are held. -/
def partsOf (n : Nat) (length used : Nat) : Line → List Nat
  | [] => [length]
  | c :: r =>
    let w := columnsOf c
    if n < used + w then length :: partsOf n 1 w r else partsOf n (length + 1) (used + w) r

/-- Where parts of some lengths end that stand one behind another. -/
def partEnds (start : Nat) : List Nat → List Nat
  | [] => []
  | k :: rest => (start + k) :: partEnds (start + k) rest

/-- Where a text is broken into lines of at most `n` columns: the numbers of characters before each
break.  `start` characters stand before the text, and `used` columns of the line are taken. -/
def breaks (x : Excess) (n : Nat) : (bound : Nat) → (start used : Nat) → Line → List Nat
  | 0, _, _, _ => []
  | bound + 1, start, used, t =>
    let (w, rest) := word t
    let size := columns (Text.dropEndWhile Text.isBlank w)
    let next := start + w.length
    let here := if start = 0 then [] else [start]
    if w.isEmpty || w.all Text.isBlank then []
    else if used + size ≤ n then breaks x n bound next (used + columns w) rest
    else if n < size then
      match x with
      | .fold =>
        let parts := partsOf n 0 0 w
        let last := w.drop (parts.dropLast.foldl (· + ·) 0)
        here ++ partEnds start parts.dropLast ++ breaks x n bound next (columns last) rest
      | .mark => here ++ breaks x n bound next (columns w) rest
    else here ++ breaks x n bound next (columns w) rest

/-- A text cut at some places; `start` characters stand before it. -/
def cutAt (start : Nat) (t : Line) : List Nat → List Line
  | [] => [t]
  | k :: rest => t.take (k - start) :: cutAt k (t.drop (k - start)) rest

/-- A line without the blanks at its end that stand beyond `n` characters. -/
def trimBeyond (n : Nat) (l : Line) : Line :=
  let blanks := (l.reverse.takeWhile Text.isBlank).length
  l.take (l.length - min blanks (l.length - n))

def wrap (x : Excess) (n : Nat) (l : Line) : List Line :=
  (cutAt 0 l (breaks x n (l.length + 1) 0 0 l)).map fun part => fit x n (trimBeyond n part)

/-! ## Tables -/

/-- A column of a table. -/
structure Column where
  title : String
  /-- Its share of what the columns without a share leave. -/
  share : Option Nat := none
  /-- The least width of its text. -/
  least : Nat := 0

def padding : Nat := 2

def ceilDiv (a b : Int) : Int := -(Int.fdiv (-a) b)

/-- Divides a width by shares, of which each comes with a least width. -/
def distribute (total : Int) (shares : List (Nat × Nat)) : List Nat :=
  match shares with
  | [] => []
  | (share, least) :: rest =>
    let sum : Nat := ((share, least) :: rest).foldl (fun n s => n + s.1) 0
    let part := if sum = 0 then total.toNat else max least (ceilDiv (share * total) sum).toNat
    part :: distribute (total - part) rest

/-- Takes a width away from columns in equal parts.  A column comes with its width, and with the
most that may be taken from it if it gives way. -/
def reduce (total : Nat) (columns : List (Nat × Option Nat)) : List Nat :=
  match columns with
  | [] => []
  | (width, none) :: rest => width :: reduce total rest
  | (width, some most) :: rest =>
    let sharers := 1 + (rest.filter (·.2.isSome)).length
    let part := min most (roundDiv total sharers)
    (width - part) :: reduce (total - part) rest

/-- Narrows the widest columns until all of them fit in a width. -/
def collapse (limit : Nat) : (bound : Nat) → List Nat → List Nat
  | 0, widths => widths
  | bound + 1, widths =>
    let total := widths.foldl (· + ·) 0
    let widest := widths.foldl max 0
    -- In one step the widest columns come down to the next width at most.
    let second := (widths.map fun w => if w = widest then 0 else w).foldl max 0
    if total ≤ limit ∨ widest = second then widths
    else
      let most := min (total - limit) (widest - second)
      collapse limit bound
        (reduce (total - limit) (widths.map fun w => (w, if w = widest then some most else none)))

def measure (c : Column) (cells : List (List Line)) (limit : Nat) : Nat :=
  let widest := (cells.flatMap fun ls => ls.map columns).foldl max (columns c.title.toList)
  max (min (widest + padding) limit) (if c.least = 0 then 0 else c.least + padding)

def widths (limit : Nat) (cs : List (Column × List (List Line))) : List Nat :=
  let sizes := cs.map fun (c, cells) => measure c cells limit
  let fixed : Nat :=
    (cs.zip sizes).foldl (fun n ((c, _), w) => if c.share.isSome then n else n + w) 0
  let shares := cs.filterMap fun (c, _) => c.share.map fun s => (s, 1 + padding)
  let shared := distribute ((limit : Int) - fixed) shares
  let wanted := ((cs.zip sizes).foldl
    (fun (held, left) ((c, _), w) =>
      match c.share, left with
      | some _, s :: rest => (s :: held, rest)
      | _, _ => (w :: held, left))
    (([] : List Nat), shared)).1.reverse
  if wanted.foldl (· + ·) 0 ≤ limit then wanted
  else
    let narrow := collapse limit (8 * cs.length + 8) wanted
    let excess := narrow.foldl (· + ·) 0 - limit
    let even := if excess = 0 then narrow else reduce excess (narrow.map fun w => (w, some w))
    (cs.zip even).map fun ((c, cells), w) => measure c cells w

end NullAccess.Layout
