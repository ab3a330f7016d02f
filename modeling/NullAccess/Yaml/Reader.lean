import NullAccess.Yaml.Form
import NullAccess.Yaml.Lexer

/-!
# Reading YAML

The tokens of one document are read as a form, and the form gives the value.  A text with more than
one document, or with tokens in no valid order, has no value.
-/

namespace NullAccess.Yaml

/-- The forms that anchors stand for.  Inside its own collection an anchor stands for an empty
one. -/
abbrev Anchors := List (String × Form)

/-- What a reader leaves: the tokens behind what it read, and the anchors so far. -/
abbrev Rest := List Token × Anchors

/-- Where a value stands, which decides what it may be. -/
inductive Context where
  /-- As a document or an element of a block sequence. -/
  | block
  /-- As a key or value of a block mapping, where a sequence needs no further indentation. -/
  | entry
  /-- Inside brackets or braces. -/
  | flow
  deriving DecidableEq, Repr

/-- The greatest depth of collections inside each other. -/
def maxDepth : Nat := 485

/-- Whether a list begins with one of some tokens, or is empty. -/
def startsWith (ts : List Token) (stops : List Token) : Bool :=
  match ts with
  | [] => true
  | t :: _ => stops.contains t

def failureAt : List Token → Failure
  | .stop why :: _ => why
  | _ => .malformed

/-- What stands before a value: the name of its anchor, and the kind that its tag names. -/
structure Properties where
  anchor : Option String := none
  tag : Option (Option Kind) := none
  deriving DecidableEq, Repr

namespace Properties

/-- The properties at the head of some tokens: an anchor and a tag, in any order. -/
def read : List Token → Properties × List Token
  | .anchor a :: .tag k :: rest => ({ anchor := some a, tag := some k }, rest)
  | .tag k :: .anchor a :: rest => ({ anchor := some a, tag := some k }, rest)
  | .anchor a :: rest => ({ anchor := some a }, rest)
  | .tag k :: rest => ({ tag := some k }, rest)
  | ts => ({}, ts)

def isEmpty (p : Properties) : Bool := p.anchor.isNone && p.tag.isNone

/-- The kind of a value that would be of kind `k` without a tag. -/
def kindOr (p : Properties) (k : Kind) : Kind := (p.tag.join).getD k

def scalar (p : Properties) (text : List Char) (style : Style) : Form :=
  let open' := style = .plain || p.tag == some none
  .scalar (p.kindOr (if open' then plainKind text else .text)) text (style != .broken)

def within (p : Properties) (f : Form) (env : Anchors) : Anchors :=
  (p.anchor.map fun a => (a, f)).toList ++ env

end Properties

mutual

/-- A value inside `depth` collections.  A name is the anchor of one value only. -/
def readForm : Nat → Nat → Context → List Token → Anchors → Except Failure (Form × Rest)
  | 0, _, _, ts, _ => .error (failureAt ts)
  | n + 1, depth, ctx, ts, env =>
    match ts with
    | .alias name :: rest =>
      match env.find? (·.1 == name) with
      | some (_, f) => .ok (f, rest, env)
      | none => .error .malformed
    | _ =>
      let (p, rest) := Properties.read ts
      if p.anchor.any fun a => env.any (·.1 == a) then .error .malformed
      else
        (readContent n depth ctx p rest env).map fun (f, rest', env') =>
          (f, rest', p.within f env')

/-- A scalar or a collection with its properties.  With properties there need not be anything. -/
def readContent :
    Nat → Nat → Context → Properties → List Token → Anchors → Except Failure (Form × Rest)
  | 0, _, _, _, ts, _ => .error (failureAt ts)
  | n + 1, depth, ctx, p, ts, env =>
    let seqKind := p.kindOr .seq
    let mapKind := p.kindOr .map
    let inSeq := p.within (.seq seqKind []) env
    let inMap := p.within (.map mapKind []) env
    let empty : Except Failure (Form × Rest) :=
      if p.isEmpty then .error (failureAt ts)
      else
        match ts with
        | .stop why :: _ => .error why
        | _ => .ok (p.scalar [] .plain, ts, env)
    match ts with
    | .scalar text style :: rest => .ok (p.scalar text style, rest, env)
    | .flowSequenceStart :: rest =>
      if maxDepth ≤ depth then .error .tooDeep
      else
        (readFlowItems n (depth + 1) true rest inSeq).map fun (items, r) => (.seq seqKind items, r)
    | .flowMappingStart :: rest =>
      if maxDepth ≤ depth then .error .tooDeep
      else
        (readFlowPairs n (depth + 1) true rest inMap).map fun (pairs, r) => (.map mapKind pairs, r)
    | .blockSequenceStart :: rest =>
      if ctx = .flow then empty
      else if maxDepth ≤ depth then .error .tooDeep
      else (readBlockItems n (depth + 1) rest inSeq).map fun (items, r) => (.seq seqKind items, r)
    | .blockMappingStart :: rest =>
      if ctx = .flow then empty
      else if maxDepth ≤ depth then .error .tooDeep
      else (readBlockPairs n (depth + 1) rest inMap).map fun (pairs, r) => (.map mapKind pairs, r)
    | .blockEntry :: _ =>
      if ctx ≠ .entry then empty
      else if maxDepth ≤ depth then .error .tooDeep
      else (readLooseItems n (depth + 1) ts inSeq).map fun (items, r) => (.seq seqKind items, r)
    | _ => empty

/-- A value, or null where a token follows that cannot begin one. -/
def readOr :
    Nat → Nat → Context → List Token → List Token → Anchors → Except Failure (Form × Rest)
  | 0, _, _, _, ts, _ => .error (failureAt ts)
  | n + 1, depth, ctx, stops, ts, env =>
    if startsWith ts stops then .ok (.scalar .null [] true, ts, env)
    else readForm n depth ctx ts env

/-- The value behind a key, or null where there is none. -/
def readValue :
    Nat → Nat → Context → List Token → List Token → Anchors → Except Failure (Form × Rest)
  | 0, _, _, _, ts, _ => .error (failureAt ts)
  | n + 1, depth, ctx, stops, ts, env =>
    match ts with
    | .value :: r => readOr n depth ctx stops r env
    | _ => .ok (.scalar .null [] true, ts, env)

def readBlockItems : Nat → Nat → List Token → Anchors → Except Failure (List Form × Rest)
  | 0, _, ts, _ => .error (failureAt ts)
  | n + 1, depth, ts, env =>
    match ts with
    | .blockEntry :: rest => do
      let (v, rest', env') ← readOr n depth .block [.blockEntry, .blockEnd] rest env
      let (vs, r) ← readBlockItems n depth rest' env'
      return (v :: vs, r)
    | .blockEnd :: rest => .ok ([], rest, env)
    | _ => .error (failureAt ts)

/-- The elements of a sequence that is not indented below its key. -/
def readLooseItems : Nat → Nat → List Token → Anchors → Except Failure (List Form × Rest)
  | 0, _, ts, _ => .error (failureAt ts)
  | n + 1, depth, ts, env =>
    match ts with
    | .blockEntry :: rest => do
      let (v, rest', env') ← readOr n depth .block [.blockEntry, .key, .value, .blockEnd] rest env
      let (vs, r) ← readLooseItems n depth rest' env'
      return (v :: vs, r)
    | _ => .ok ([], ts, env)

def readBlockPairs : Nat → Nat → List Token → Anchors → Except Failure (List (Form × Form) × Rest)
  | 0, _, ts, _ => .error (failureAt ts)
  | n + 1, depth, ts, env =>
    match ts with
    | .key :: rest => do
      let stops := [.key, .value, .blockEnd]
      let (k, rest', env') ← readOr n depth .entry stops rest env
      let (v, rest'', env'') ← readValue n depth .entry stops rest' env'
      let (pairs, r) ← readBlockPairs n depth rest'' env''
      return ((k, v) :: pairs, r)
    | .blockEnd :: rest => .ok ([], rest, env)
    | _ => .error (failureAt ts)

/-- The elements inside brackets, up to the closing one.  A comma stands before every element but
the first. -/
def readFlowItems : Nat → Nat → Bool → List Token → Anchors → Except Failure (List Form × Rest)
  | 0, _, _, ts, _ => .error (failureAt ts)
  | n + 1, depth, first, ts, env =>
    match ts, first with
    | .flowSequenceEnd :: rest, _ => .ok ([], rest, env)
    | .flowEntry :: .flowSequenceEnd :: rest, false => .ok ([], rest, env)
    | .flowEntry :: rest, false => readFlowItem n depth rest env
    | _, true => readFlowItem n depth ts env
    | _, false => .error (failureAt ts)

/-- One element inside brackets, and those after it.  A pair stands for a mapping. -/
def readFlowItem : Nat → Nat → List Token → Anchors → Except Failure (List Form × Rest)
  | 0, _, ts, _ => .error (failureAt ts)
  | n + 1, depth, ts, env =>
    match ts with
    | .key :: rest => do
      -- The pair stands for a mapping, which is one collection more.
      let (k, rest', env') ←
        readOr n (depth + 1) .flow [.value, .flowEntry, .flowSequenceEnd] rest env
      let (v, rest'', env'') ←
        readValue n (depth + 1) .flow [.flowEntry, .flowSequenceEnd] rest' env'
      let (vs, r) ← readFlowItems n depth false rest'' env''
      return (.map .map [(k, v)] :: vs, r)
    | _ => do
      let (v, rest', env') ← readForm n depth .flow ts env
      let (vs, r) ← readFlowItems n depth false rest' env'
      return (v :: vs, r)

def readFlowPairs :
    Nat → Nat → Bool → List Token → Anchors → Except Failure (List (Form × Form) × Rest)
  | 0, _, _, ts, _ => .error (failureAt ts)
  | n + 1, depth, first, ts, env =>
    match ts, first with
    | .flowMappingEnd :: rest, _ => .ok ([], rest, env)
    | .flowEntry :: .flowMappingEnd :: rest, false => .ok ([], rest, env)
    | .flowEntry :: rest, false => readFlowPair n depth rest env
    | _, true => readFlowPair n depth ts env
    | _, false => .error (failureAt ts)

/-- One pair inside braces, and those after it.  A value alone is a key with nothing under it. -/
def readFlowPair : Nat → Nat → List Token → Anchors → Except Failure (List (Form × Form) × Rest)
  | 0, _, ts, _ => .error (failureAt ts)
  | n + 1, depth, ts, env =>
    match ts with
    | .key :: rest => do
      let (k, rest', env') ← readOr n depth .flow [.value, .flowEntry, .flowMappingEnd] rest env
      let (v, rest'', env'') ← readValue n depth .flow [.flowEntry, .flowMappingEnd] rest' env'
      let (pairs, r) ← readFlowPairs n depth false rest'' env''
      return ((k, v) :: pairs, r)
    | _ => do
      let (k, rest', env') ← readForm n depth .flow ts env
      let (pairs, r) ← readFlowPairs n depth false rest' env'
      return ((k, .scalar .null [] true) :: pairs, r)

end

/-- The tokens after the directives and the mark that begin a document.  Directives need the
mark. -/
def openDocument : List Token → Except Failure (List Token)
  | .directive :: rest =>
    match rest.dropWhile (· == .directive) with
    | .documentStart :: body => .ok body
    | ts => .error (failureAt ts)
  | .documentStart :: body => .ok body
  | body => .ok body

def closeDocument (f : Form) (ts : List Token) : Except Failure Form :=
  match ts.dropWhile (· == .documentEnd) with
  | [] => .ok f
  | rest => .error (failureAt (rest.dropWhile (· == .directive)))

/-- The form of a text with at most one document.  A text without one is null. -/
def readDocument (t : List Char) : Except Failure Form := do
  let ts := tokens t
  let null : Form := .scalar .null [] true
  if ts.isEmpty then return null
  else
    let body ← openDocument ts
    let explicit := body.length < ts.length
    if explicit && startsWith body [.directive, .documentStart, .documentEnd] then
      closeDocument null body
    else
      let (f, rest, _) ← readForm (6 * ts.length + 6) 0 .block body []
      closeDocument f rest

/-- The value of a text with at most one document. -/
def read (t : List Char) : Except Failure Node := (readDocument t).bind Form.node

end NullAccess.Yaml
