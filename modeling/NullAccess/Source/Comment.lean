import NullAccess.Text.Lines

/-!
# Comments

A line is a comment line when comment text is all it holds, judged by how it begins.  On any other
line the code ends at the first `//` outside quotes.
-/

namespace NullAccess.Source

/-- Whether a line begins, after blanks, as a line comment or as the body of a block comment. -/
def isCommentLine (l : Line) : Bool :=
  match Text.trimLeft l with
  | '*' :: _ => true
  | '/' :: '/' :: _ => true
  | '/' :: '*' :: _ => true
  | _ => false

def isQuote (c : Char) : Bool := c == '\'' || c == '"' || c == '`'

/-- The code of a line, where `quote` is the quotation mark that is open.  A quotation mark closes
only a quotation that the same mark opened. -/
def codeFrom (quote : Option Char) : Line → Line
  | [] => []
  | c :: r =>
    match quote with
    -- Escapes are not heeded: a mark behind a backslash closes too.
    | some q => c :: codeFrom (if c = q then none else some q) r
    | none =>
      if isQuote c then c :: codeFrom (some c) r
      else if c = '/' ∧ r.head? = some '/' then []
      else c :: codeFrom none r

/-- The code of a line: what stands before its `//` comment. -/
def code (l : Line) : Line := codeFrom none l

theorem codeFrom_isPrefix (quote : Option Char) (l : Line) : codeFrom quote l <+: l := by
  induction l generalizing quote with
  | nil => simp [codeFrom]
  | cons c r ih =>
    unfold codeFrom
    split
    · simpa using ih _
    · split
      · simpa using ih _
      · split
        · exact List.nil_prefix
        · simpa using ih _

theorem code_isPrefix (l : Line) : code l <+: l := codeFrom_isPrefix none l

end NullAccess.Source
