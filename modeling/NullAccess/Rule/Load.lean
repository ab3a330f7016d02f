import NullAccess.Rule.Evaluate
import NullAccess.Warning
import NullAccess.Yaml.Load

/-!
# Rule files

A rule file is a mapping with a list of rules, a version and the precedence of verdicts.  A rule
whose pattern has no reading is left out, so that it does not disable the others; a rule that is no
rule at all is an error.
-/

namespace NullAccess

/-- Why a rule file has no rule set. -/
inductive RuleFileError where
  | unreadable (e : FileError)
  | notText
  | noValue (why : Yaml.Failure)
  /-- The document is no mapping. -/
  | notMapping
  /-- The rules are no list, or one of them is no mapping with names as keys. -/
  | rulesNotListed
  /-- A rule lacks a field or has one that does not fit. -/
  | badRule
  /-- A pattern has a flaw that is more than a breach of the rules of writing. -/
  | badPattern (flaw : Pattern.Flaw)
  | badVersion
  /-- The precedence is no list. -/
  | precedenceNotListed
  | unknownVerdict
  deriving DecidableEq, Repr

namespace RuleSet

/-- The elements that a value is made of: those of a sequence, the keys of a mapping, the
characters of a text, the numbers that bytes are. -/
def elements? : Yaml.Node → Option (List Yaml.Node)
  | .seq items => some items
  | .map pairs => some (pairs.map (·.1))
  | .text s => some (s.toList.map fun c => .text (String.singleton c))
  | .broken => some [.broken]
  | .bytes b => some (b.toList.map fun n => .int n.toNat)
  | _ => none

def ruleOf (v : Yaml.Node) : Except RuleFileError Rule :=
  match v with
  | .map pairs =>
    match Yaml.Node.pairsToJson pairs with
    | none => .error .rulesNotListed
    | some fields =>
      match Rule.ofFields? fields with
      | some r => .ok r
      | none => .error .badRule
  | _ => .error .rulesNotListed

/-- The rules of a list, without those whose pattern breaks the rules of writing. -/
def rulesOf : List Yaml.Node → List Warning × Except RuleFileError (List Rule)
  | [] => ([], .ok [])
  | v :: rest =>
    match ruleOf v with
    | .error e => ([], .error e)
    | .ok r =>
      let (warnings, rules) := rulesOf rest
      match Pattern.ofString r.pattern with
      | .ok _ => (warnings, rules.map (r :: ·))
      | .error .malformed => (.ruleSkipped :: warnings, rules)
      | .error flaw => ([], .error (.badPattern flaw))

def verdictOf? : Yaml.Node → Option Verdict
  | .text s => Verdict.ofText? s
  | _ => none

def verdictsOf (v : Yaml.Node) : Except RuleFileError (List Verdict) :=
  match elements? v with
  | none => .error .precedenceNotListed
  | some items =>
    match items.mapM verdictOf? with
    | some verdicts => .ok verdicts
    | none => .error .unknownVerdict

def valueOf? (pairs : List (Yaml.Node × Yaml.Node)) (key : String) : Option Yaml.Node :=
  (pairs.find? fun (k, _) => Yaml.Node.sameKey k (.text key)).map (·.2)

def versionOf (pairs : List (Yaml.Node × Yaml.Node)) : Except RuleFileError Int :=
  match valueOf? pairs "version" with
  | none => .ok 1
  | some v =>
    match v.toJson.toInt? with
    | some n => .ok n
    | none => .error .badVersion

def precedenceOf (pairs : List (Yaml.Node × Yaml.Node)) : Except RuleFileError (List Verdict) :=
  match valueOf? pairs "precedence" with
  | none => .ok ({} : RuleSet).precedence
  | some v => verdictsOf v

def ofPairs (pairs : List (Yaml.Node × Yaml.Node)) :
    List Warning × Except RuleFileError RuleSet :=
  match elements? ((valueOf? pairs "rules").getD (.seq [])) with
  | none => ([], .error .rulesNotListed)
  | some items =>
    let (warnings, found) := rulesOf items
    (warnings, do
      let rules ← found
      let version ← versionOf pairs
      let precedence ← precedenceOf pairs
      return { version, precedence, rules })

/-- The rule set of a file.  A file that is missing gives an empty one, with a warning. -/
def load (t : Tree) (p : Path) : List Warning × Except RuleFileError RuleSet :=
  match Yaml.load t p with
  | .error (.unreadable e) =>
    if e.cause = .notFound then ([.rulesMissing], .ok {}) else ([], .error (.unreadable e))
  | .error .notText => ([], .error .notText)
  | .error (.failed why) => ([], .error (.noValue why))
  | .ok v =>
    if v.isEmpty then ofPairs []
    else
      match v with
      | .map pairs => ofPairs pairs
      | _ => ([], .error .notMapping)

end RuleSet

end NullAccess
