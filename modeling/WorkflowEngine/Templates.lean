import WorkflowEngine.Validation

/-!
# Templates and node input

`TemplateParser.parse` and `NodeInputResolver.resolve`. The parser finds the delimited spans
with the non-greedy pattern, checks every delimiter against the spans, and reads each span as
a reference. `strFloat` is Python's `str` of a float, the only rendering that is not spelled
out here. Values may be nested to any depth: the recursion limit of the interpreter is left out.
-/
namespace WorkflowEngine

structure TemplateReference where
  nodeId : String
  path : List String
  deriving DecidableEq, Repr

inductive TemplateSegment where
  | literal (text : String)
  | reference (ref : TemplateReference)
  deriving DecidableEq, Repr

/-- The three results of `parse`: the text itself, one bare reference, or the tuple. -/
inductive ParsedTemplate where
  | text (value : String)
  | reference (ref : TemplateReference)
  | segments (segments : List TemplateSegment)
  deriving DecidableEq, Repr

namespace TemplateParser

def openDelimiter : List Char := ['\x7b', '\x7b']

def closeDelimiter : List Char := ['\x7d', '\x7d']

/-- The position of the first occurrence of `pattern`, where the text starts at `position`. -/
def findFrom (pattern : List Char) : List Char → Nat → Option Nat
  | [], position => if pattern.isEmpty then some position else none
  | c :: cs, position =>
    if pattern.isPrefixOf (c :: cs) then some position else findFrom pattern cs (position + 1)

/-- `value.find(pattern, start)`. -/
def find (value pattern : List Char) (start : Nat) : Option Nat := findFrom pattern (value.drop start) start

/-- `finditer` of the non-greedy delimiter pattern: the spans from `cursor` on. -/
def spans (value : List Char) : Nat → Nat → List (Nat × Nat)
  | 0, _ => []
  | fuel + 1, cursor =>
    match find value openDelimiter cursor with
    | none => []
    | some i =>
      match find value closeDelimiter (i + 2) with
      | none => []
      | some j => (i, j + 2) :: spans value fuel (j + 2)

/-- Every occurrence that the scan finds, two characters at a time, lies in a span. -/
def covered (value delimiter : List Char) (matched : List (Nat × Nat)) : Nat → Nat → Bool
  | 0, _ => true
  | fuel + 1, start =>
    match find value delimiter start with
    | none => true
    | some position =>
      matched.any (fun m => decide (m.1 ≤ position) && decide (position < m.2)) &&
        covered value delimiter matched fuel (position + 2)

def unmatched (delimiter : List Char) : PyError :=
  .templateResolution ("Malformed template expression: unmatched '" ++ String.ofList delimiter ++ "'.")

def validateDelimiters (value : List Char) (matched : List (Nat × Nat)) : Except PyError Unit :=
  if !covered value openDelimiter matched (value.length + 1) 0 then .error (unmatched openDelimiter)
  else if !covered value closeDelimiter matched (value.length + 1) 0 then .error (unmatched closeDelimiter)
  else .ok ()

def isDigits (s : List Char) : Bool := !s.isEmpty && s.all isAsciiDigit

/-- `_PATH_SEGMENT_PATTERN`. -/
def isPathSegment (s : List Char) : Bool := isIdentifierChars s || isDigits s

/-- `text.split(".")`. -/
def splitDots : List Char → List (List Char)
  | [] => [[]]
  | c :: cs =>
    match splitDots cs with
    | [] => [[c]]
    | part :: parts => if c = '.' then [] :: part :: parts else (c :: part) :: parts

/-- `_REFERENCE_EXPRESSION_PATTERN.fullmatch`: identifiers hold neither dots nor blanks, so the
pattern accepts exactly the dotted lists of blank-padded segments. -/
def referenceExpression (expression : List Char) : Option TemplateReference :=
  match (splitDots expression).map strip with
  | nodeId :: part :: parts =>
    if isIdentifierChars nodeId && (part :: parts).all isPathSegment then
      some ⟨String.ofList nodeId, (part :: parts).map String.ofList⟩
    else none
  | _ => none

def malformed (template : List Char) : PyError :=
  .templateResolution ("Malformed template expression " ++ String.ofList (repr template) ++
    "; expected '\x7b\x7b node_name.output.path \x7d\x7d'.")

/-- `template[2:-2]` read as a reference. -/
def parseReference (template : List Char) : Except PyError TemplateReference :=
  match referenceExpression ((template.drop 2).take (template.length - 4)) with
  | some r => .ok r
  | none => .error (malformed template)

def slice (value : List Char) (start stop : Nat) : List Char := (value.drop start).take (stop - start)

/-- The loop that alternates literal text and references, from `cursor` on. -/
def segmentsFrom (value : List Char) : Nat → List (Nat × Nat) → Except PyError (List TemplateSegment)
  | cursor, [] =>
    .ok (if cursor < value.length then [.literal (String.ofList (value.drop cursor))] else [])
  | cursor, (start, stop) :: rest => do
    let r ← parseReference (slice value start stop)
    let tail ← segmentsFrom value stop rest
    return (if cursor < start then [.literal (String.ofList (slice value cursor start))] else []) ++
      .reference r :: tail

def parse (text : String) : Except PyError ParsedTemplate :=
  let value := text.toList
  if (find value openDelimiter 0).isNone && (find value closeDelimiter 0).isNone then .ok (.text text)
  else do
    let matched := spans value (value.length + 1) 0
    validateDelimiters value matched
    if matched = [(0, value.length)] then
      let r ← parseReference value
      return .reference r
    else
      let segments ← segmentsFrom value 0 matched
      return .segments segments

end TemplateParser

namespace NodeInputResolver

mutual

/-- `_copy_json_value`: the identity on finite JSON. -/
def copyJsonValue : Json → Except PyError Json
  | .nonFinite _ => .error (.templateResolution "Task input must contain only finite JSON numbers.")
  | .arr items => do return .arr (← copyItems items)
  | .obj members => do return .obj (← copyObject members)
  | .null => .ok .null
  | .bool b => .ok (.bool b)
  | .int i => .ok (.int i)
  | .float q => .ok (.float q)
  | .str s => .ok (.str s)

def copyItems : List Json → Except PyError (List Json)
  | [] => .ok []
  | x :: xs => do return (← copyJsonValue x) :: (← copyItems xs)

def copyObject : List (String × Json) → Except PyError (List (String × Json))
  | [] => .ok []
  | (key, x) :: xs => do return (key, ← copyJsonValue x) :: (← copyObject xs)

end

def referencePath (r : TemplateReference) : String := r.nodeId ++ "." ++ String.intercalate "." r.path

def missingOutput (r : TemplateReference) : PyError :=
  .templateResolution ("Template references missing output '" ++ referencePath r ++ "'.")

/-- The interpreter's default limit on the digits that `int` converts from a string. -/
def maxStrDigits : Nat := 4300

/-- The value of a digit string. -/
def decimalValue (key : String) : Nat := key.toList.foldl (fun n c => 10 * n + (c.toNat - 48)) 0

/-- `int(key)` of a digit string. -/
def intOf (key : String) : Except PyError Nat :=
  if maxStrDigits < key.toList.length then
    .error (.valueError ("Exceeds the limit (" ++ toString maxStrDigits ++
      " digits) for integer string conversion: " ++ "value has " ++ toString key.toList.length ++
      " digits; use sys.set_int_max_str_digits() to increase the limit"))
  else .ok (decimalValue key)

/-- The walk of `_lookup` along the path. -/
def walk (r : TemplateReference) : Json → List String → Except PyError Json
  | current, [] => .ok current
  | .obj members, key :: rest =>
    match Dict.get? members key with
    | some v => walk r v rest
    | none => .error (missingOutput r)
  | .arr items, key :: rest =>
    if TemplateParser.isDigits key.toList then
      match intOf key with
      | .error e => .error e
      | .ok index =>
        match items[index]? with
        | some v => walk r v rest
        | none => .error (missingOutput r)
    else .error (missingOutput r)
  | _, _ :: _ => .error (missingOutput r)

def lookup (r : TemplateReference) (dependencyOutputs : Dict Json) : Except PyError Json :=
  match Dict.get? dependencyOutputs r.nodeId with
  | some v => walk r v r.path
  | none => .error (.templateResolution
      ("Template references unavailable dependency output '" ++ r.nodeId ++ "'."))

variable (strFloat : Rat → String)

/-- `str` of a non-finite float. -/
def strNonFinite (literal : String) : String :=
  if literal = "NaN" then "nan" else if literal = "Infinity" then "inf" else "-inf"

/-- `_interpolate`. Every int has a text here, whereas `str` raises above 4300 digits: `json.loads`
refuses such an int before, so no stored output holds one. -/
def interpolate (r : TemplateReference) (dependencyOutputs : Dict Json) : Except PyError String := do
  match ← lookup r dependencyOutputs with
  | .str s => return s
  | .null => return "null"
  | .bool b => return if b then "true" else "false"
  | .int i => return toString i
  | .float q => return strFloat q
  | .nonFinite l => return strNonFinite l
  | .arr _ | .obj _ => .error (.templateResolution
      ("Embedded templates must resolve to scalar JSON values; '" ++ referencePath r ++
        "' resolved to a structured value."))

def interpolateSegments (dependencyOutputs : Dict Json) : List TemplateSegment → Except PyError String
  | [] => .ok ""
  | .literal s :: rest => do return s ++ (← interpolateSegments dependencyOutputs rest)
  | .reference r :: rest => do
    let s ← interpolate strFloat r dependencyOutputs
    return s ++ (← interpolateSegments dependencyOutputs rest)

def resolveString (value : String) (dependencyOutputs : Dict Json) : Except PyError Json := do
  match ← TemplateParser.parse value with
  | .text s => return .str s
  | .reference r => copyJsonValue (← lookup r dependencyOutputs)
  | .segments segments => return .str (← interpolateSegments strFloat dependencyOutputs segments)

mutual

def resolveValue (dependencyOutputs : Dict Json) : Json → Except PyError Json
  | .str s => resolveString strFloat s dependencyOutputs
  | .arr items => do return .arr (← resolveItems dependencyOutputs items)
  | .obj members => do return .obj (← resolveObject dependencyOutputs members)
  | .null => .ok .null
  | .bool b => .ok (.bool b)
  | .int i => .ok (.int i)
  | .float q => .ok (.float q)
  | .nonFinite _ => .error (.templateResolution "Task input must contain only finite JSON numbers.")

def resolveItems (dependencyOutputs : Dict Json) : List Json → Except PyError (List Json)
  | [] => .ok []
  | x :: xs => do return (← resolveValue dependencyOutputs x) :: (← resolveItems dependencyOutputs xs)

def resolveObject (dependencyOutputs : Dict Json) : List (String × Json) → Except PyError (List (String × Json))
  | [] => .ok []
  | (key, x) :: xs => do
    return (key, ← resolveValue dependencyOutputs x) :: (← resolveObject dependencyOutputs xs)

end

def resolve (node : WorkflowNode) (executionInput dependencyOutputs : Dict Json) : Except PyError (Dict Json) :=
  if node.handler = "input" then copyObject executionInput
  else if node.handler = "output" then copyObject dependencyOutputs
  else resolveObject strFloat dependencyOutputs node.config

end NodeInputResolver

end WorkflowEngine
