import NullAccess.Rule.Basic

/-!
# The rules that come with the program

First the initialisers that always give a value: constructions, collections, coercions,
measurements, properties of events and forms, literals.  Then those that may give none: element
lookups, extraction of a first or last element, and keyed lookups.
-/

namespace NullAccess.Rule

def plain (id : String) (verdict : Verdict) (shape : Shape) (pattern : String) : Rule :=
  { id, pattern, verdict, shape }

def alwaysValueRules : List Rule :=
  [ plain "dom-create-node" .alwaysValue .construction
      r"document\.create(?:Element|TextNode|DocumentFragment|Comment)\s*\(",
    plain "new-instance" .alwaysValue .construction
      r"^\s*(?:await\s+)?new\s+[\w.$]+",
    plain "object-factory" .alwaysValue .construction
      r"\bObject\.(?:create|assign|freeze|fromEntries)\s*\(",
    plain "stream-reader" .alwaysValue .construction
      r"\.getReader\s*\(\s*\)",
    plain "json-parse" .alwaysValue .construction
      r"\bJSON\.parse\s*\(",
    { plain "snapshot-get" .alwaysValue .construction
      r"\.get\s*\(\s*\)" with
      description := "Argument-less .get() returns a snapshot object" },
    plain "logger-factory" .alwaysValue .construction
      r"\bcreateLogger\s*\(",
    plain "router-factory" .alwaysValue .construction
      r"\bexpress(?:\.Router)?\s*\(\s*\)",
    plain "query-selector-all" .alwaysValue .collection
      r"\.querySelectorAll\s*\(",
    plain "array-transform" .alwaysValue .collection
      r"\.(?:filter|map|flatMap|concat|entries|keys|values|reverse|toSorted)\s*\(",
    plain "array-factory" .alwaysValue .collection
      r"\b(?:Array\.(?:from|of)|Object\.(?:keys|values|entries))\s*\(",
    plain "string-method" .alwaysValue .coercion
      r"\.(?:trim|trimStart|trimEnd|toLowerCase|toUpperCase|slice|substring|replace|replaceAll|split|padStart|padEnd|repeat|toString|toFixed|join|normalize)\s*\(",
    plain "primitive-coercion" .alwaysValue .coercion
      r"\b(?:String|Number|Boolean|parseInt|parseFloat)\s*\(",
    plain "math" .alwaysValue .coercion
      r"\bMath\.\w+",
    plain "json-stringify" .alwaysValue .coercion
      r"\bJSON\.stringify\s*\(",
    plain "layout-measurement" .alwaysValue .measurement
      r"\.(?:getBoundingClientRect|getComputedStyle)\s*\(|\bgetComputedStyle\s*\(",
    plain "layout-dimension" .alwaysValue .measurement
      r"\.(?:offsetWidth|offsetHeight|offsetTop|offsetLeft|clientWidth|clientHeight|scrollWidth|scrollHeight|scrollTop|scrollLeft)\b",
    plain "form-value" .alwaysValue .eventProperty
      r"\.value\b(?!\s*\()",
    plain "event-property" .alwaysValue .eventProperty
      r"\b(?:e|ev|evt|event)\.(?:target|currentTarget|type|key|code|clientX|clientY|pageX|pageY|detail|timeStamp)\b",
    plain "array-literal" .alwaysValue .literal
      r"^\s*\[",
    plain "object-literal" .alwaysValue .literal
      "^\\s*\\\x7b",
    plain "scalar-literal" .alwaysValue .literal
      r#"^\s*(?:['"`]|-?\d|true\b|false\b)"# ]

def mayBeAbsentRules : List Rule :=
  [ plain "element-by-id" .mayBeAbsent .elementLookup
      r"\.getElementById\s*\(",
    plain "element-by-selector" .mayBeAbsent .elementLookup
      r"\.querySelector\s*\(",
    plain "element-closest" .mayBeAbsent .elementLookup
      r"\.closest\s*\(",
    plain "array-find" .mayBeAbsent .sequenceExtraction
      r"\.(?:find|findLast)\s*\(",
    plain "array-shift-pop" .mayBeAbsent .sequenceExtraction
      r"\.(?:shift|pop)\s*\(\s*\)",
    plain "array-at" .mayBeAbsent .sequenceExtraction
      r"\.at\s*\(",
    plain "first-element" .mayBeAbsent .sequenceExtraction
      r"\[\s*0\s*\]",
    plain "last-element" .mayBeAbsent .sequenceExtraction
      r"\[\s*[\w.$]+\.length\s*-\s*1\s*\]",
    plain "map-get" .mayBeAbsent .keyedLookup
      r"\.get\s*\(\s*[^)\s]",
    plain "storage-get" .mayBeAbsent .keyedLookup
      r"\.(?:getItem|getAttribute)\s*\(",
    plain "string-key-index" .mayBeAbsent .keyedLookup
      r#"[\w$]+\[\s*['"`][\w$-]+['"`]\s*\]"#,
    { plain "regex-match" .mayBeAbsent .keyedLookup
      r"\.(?:match|exec)\s*\(" with
      description := "String.match and RegExp.exec return null when nothing matches" } ]

end NullAccess.Rule

namespace NullAccess.RuleSet

def shipped : RuleSet := { rules := Rule.alwaysValueRules ++ Rule.mayBeAbsentRules }

end NullAccess.RuleSet
