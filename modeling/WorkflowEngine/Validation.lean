import WorkflowEngine.Workflow

/-!
# Validation of untrusted definitions

The eight built-in rules, in the order of `DefaultWorkflowRuleProvider`, over the raw JSON
payload, and `WorkflowDefinitionService.accept`. Every rule runs on every payload, so each
one sees whatever an earlier rule has already rejected. A rule that would raise on a wrong
type raises here too.
-/
namespace WorkflowEngine

structure WorkflowValidationError where
  code : String
  message : String
  path : String
  nodeId : Option String
  dependencyId : Option String
  metadata : Dict String
  deriving DecidableEq, Repr

/-- What validation reads from outside `src`: the environment variable `INTEGRATION_TEST`,
`str` of a JSON value inside a message, and the two pydantic conversions of optional fields. `strOf`
is total: what `json.loads` returns holds no int of over 4300 digits, for which `str` raises, and the
recursion limit of the interpreter is left out. -/
structure ValidationEnv where
  integrationTest : Bool
  strOf : Json → String
  parseUuid : Json → Option Uuid
  acceptsDatetime : Json → Bool

inductive AcceptError where
  | invalidWorkflowDefinition (errors : List WorkflowValidationError)
  | typeError (message : String)
  | keyError (key : String)
  | modelValidation
  deriving DecidableEq, Repr

namespace Json

def asMapping? : Json → Option (Dict Json)
  | .obj m => some m
  | _ => none

def asList? : Json → Option (List Json)
  | .arr xs => some xs
  | _ => none

def asStr? : Json → Option String
  | .str s => some s
  | _ => none

/-- `bool(value)`. -/
def truthy : Json → Bool
  | .null => false
  | .bool b => b
  | .int i => decide (i ≠ 0)
  | .float q => decide (q ≠ 0)
  | .nonFinite _ => true
  | .str s => decide (s ≠ "")
  | .arr xs => !xs.isEmpty
  | .obj ms => !ms.isEmpty

/-- `hash(value)` raises on lists and dicts. -/
def hashable : Json → Bool
  | .arr _ => false
  | .obj _ => false
  | _ => true

/-- `iter(value)`: a string yields its characters and a dict its keys. -/
def iterate : Json → Except AcceptError (List Json)
  | .arr xs => .ok xs
  | .str s => .ok (s.toList.map fun c => .str (String.singleton c))
  | .obj ms => .ok (ms.map fun m => .str m.1)
  | _ => .error (.typeError "object is not iterable")

end Json

def isAsciiLetter (c : Char) : Bool :=
  let n := c.toNat
  (65 ≤ n && n ≤ 90) || (97 ≤ n && n ≤ 122)

def isAsciiDigit (c : Char) : Bool := 48 ≤ c.toNat && c.toNat ≤ 57

def isIdentifierChars : List Char → Bool
  | [] => false
  | c :: cs => isAsciiLetter c &&
    cs.all fun c => isAsciiLetter c || isAsciiDigit c || c == '_' || c == '-'

/-- `NODE_ID_PATTERN.fullmatch`. -/
def isIdentifier (s : String) : Bool := isIdentifierChars s.toList

namespace Validation

/-- `workflow.get("dag")` as a mapping, then its `nodes` as a list. -/
def rawNodes (definition : Dict Json) : Option (List Json) :=
  ((Dict.get? definition "dag").bind Json.asMapping?).bind fun dag =>
    (Dict.get? dag "nodes").bind Json.asList?

def nodesFrom (definition : Dict Json) : List (Nat × Dict Json) :=
  ((rawNodes definition).getD []).zipIdx.filterMap fun m => (m.1.asMapping?).map fun node => (m.2, node)

/-- `isinstance(node_id := node.get("id"), str)`. -/
def strId (node : Dict Json) : Option String := (Dict.get? node "id").bind Json.asStr?

def validNodeIds (definition : Dict Json) : List String :=
  ((nodesFrom definition).filterMap fun m => strId m.2).filter fun i => !blank i

def nodePath (index : Nat) : String := "dag.nodes[" ++ toString index ++ "]"

def requiredWorkflowFieldsRule (definition : Dict Json) : List WorkflowValidationError :=
  (if ((Dict.get? definition "name").bind Json.asStr?).any (fun s => !blank s) then []
    else [⟨"required_workflow_name", "Workflow property 'name' must be a non-empty string.", "name",
      none, none, []⟩]) ++
  match (Dict.get? definition "dag").bind Json.asMapping? with
  | none => [⟨"required_workflow_dag", "Workflow property 'dag' must be an object.", "dag", none, none, []⟩]
  | some dag =>
    if ((Dict.get? dag "nodes").bind Json.asList?).isSome then []
    else [⟨"required_workflow_nodes", "Workflow property 'dag.nodes' must be a list.", "dag.nodes",
      none, none, []⟩]

def missingFieldError (index : Nat) (nodeId : Option String) (field : String) : WorkflowValidationError :=
  ⟨"required_node_" ++ field, "Node property '" ++ field ++ "' is required.",
    nodePath index ++ "." ++ field, nodeId, none, []⟩

def requiredNodeFields (index : Nat) (node : Json) : List WorkflowValidationError :=
  match node.asMapping? with
  | none => [⟨"invalid_node_definition", "Workflow node must be an object.", nodePath index, none, none, []⟩]
  | some node =>
    ((["id", "handler", "dependencies"].filter fun f => !Dict.has node f).map
      (missingFieldError index (strId node))) ++
    match Dict.get? node "dependencies" with
    | none => []
    | some (.arr _) => []
    | some _ => [⟨"invalid_node_dependencies", "Node property 'dependencies' must be a list.",
        nodePath index ++ ".dependencies", strId node, none, []⟩]

def requiredNodeFieldsRule (definition : Dict Json) : List WorkflowValidationError :=
  ((rawNodes definition).getD []).zipIdx.flatMap fun m => requiredNodeFields m.2 m.1

def nodeIdValidityRule (definition : Dict Json) : List WorkflowValidationError :=
  (nodesFrom definition).flatMap fun m =>
    if (strId m.2).any isIdentifier then []
    else [⟨"invalid_node_id", "Node property 'id' must start with a letter and contain only " ++
      "letters, numbers, underscores, or hyphens.", nodePath m.1 ++ ".id", strId m.2, none, []⟩]

/-- The identifiers `Counter` counts: strings that match the pattern. -/
def countedIds (definition : Dict Json) : List String :=
  ((nodesFrom definition).filterMap fun m => strId m.2).filter isIdentifier

def uniqueNodeIdsRule (definition : Dict Json) : List WorkflowValidationError :=
  (nodesFrom definition).flatMap fun m =>
    match strId m.2 with
    | none => []
    | some i =>
      if 1 < (countedIds definition).count i then
        [⟨"duplicate_node_id", "Node ID '" ++ i ++ "' is defined more than once.",
          nodePath m.1 ++ ".id", some i, none, []⟩]
      else []

/-- `sorted(allowed_handlers)`. -/
def allowedHandlers (env : ValidationEnv) : List String :=
  if env.integrationTest then
    ["call_external_service", "input", "integration_barrier", "llm_service", "output"]
  else ["call_external_service", "input", "llm_service", "output"]

def handlerDefinitionRule (env : ValidationEnv) (definition : Dict Json) : List WorkflowValidationError :=
  (nodesFrom definition).flatMap fun m =>
    if ((Dict.get? m.2 "handler").bind Json.asStr?).any (· ∈ allowedHandlers env) then []
    else [⟨"invalid_handler", "Node property 'handler' must be one of: " ++
      String.intercalate ", " (allowedHandlers env) ++ ".", nodePath m.1 ++ ".handler", strId m.2, none, []⟩]

/-- `config` is a mapping whose `field` is a non-blank string. -/
def hasText (config : Json) (field : String) : Bool :=
  ((config.asMapping?.bind (Dict.get? · field)).bind Json.asStr?).any fun s => !blank s

def nodeConfiguration (index : Nat) (node : Dict Json) : Except AcceptError (List WorkflowValidationError) :=
  let handler := (Dict.get? node "handler").getD .null
  let config := (Dict.get? node "config").getD (.obj [])
  let path := nodePath index ++ ".config"
  if handler = .str "call_external_service" then
    .ok (if hasText config "url" then [] else [⟨"invalid_handler_config",
      "Handler 'call_external_service' requires a non-empty string 'config.url'.", path ++ ".url",
      strId node, none, []⟩])
  else if handler = .str "llm_service" then
    .ok (if hasText config "prompt" then [] else [⟨"invalid_handler_config",
      "Handler 'llm_service' requires a non-empty string 'config.prompt'.", path ++ ".prompt",
      strId node, none, []⟩])
  else if !handler.hashable then .error (.typeError "unhashable type")
  else
    match handler with
    | .str h =>
      .ok (if (h = "input" ∨ h = "output") ∧ config.truthy then [⟨"invalid_handler_config",
        "Handler '" ++ h ++ "' does not accept configuration.", path, strId node, none, []⟩] else [])
    | _ => .ok []

def nodeConfigurationRule (definition : Dict Json) : Except AcceptError (List WorkflowValidationError) := do
  let errors ← (nodesFrom definition).mapM fun m => nodeConfiguration m.1 m.2
  return errors.flatten

/-- `node_context or index`. -/
def contextText (context : Option String) (index : Nat) : String :=
  match context with
  | some s => if s = "" then toString index else s
  | none => toString index

def dependencyPath (index position : Nat) : String :=
  nodePath index ++ ".dependencies[" ++ toString position ++ "]"

/-- The loop over one node's declared dependencies. -/
def dependencyErrors (env : ValidationEnv) (known : List String) (context : Option String) (index : Nat) :
    Nat → List String → List Json → List WorkflowValidationError
  | _, _, [] => []
  | position, seen, d :: rest =>
    match d.asStr? with
    | none =>
      ⟨"unknown_dependency", "Node '" ++ contextText context index ++ "' references unknown dependency '" ++
        env.strOf d ++ "'.", dependencyPath index position, context, none, []⟩ ::
        dependencyErrors env known context index (position + 1) seen rest
    | some s =>
      if s ∉ known then
        ⟨"unknown_dependency", "Node '" ++ contextText context index ++ "' references unknown dependency '" ++
          s ++ "'.", dependencyPath index position, context, some s, []⟩ ::
          dependencyErrors env known context index (position + 1) seen rest
      else if context = some s then
        ⟨"self_dependency", "Node '" ++ s ++ "' cannot depend on itself.", dependencyPath index position,
          context, some s, []⟩ :: dependencyErrors env known context index (position + 1) seen rest
      else if s ∈ seen then
        ⟨"duplicate_dependency", "Node '" ++ contextText context index ++ "' declares duplicate dependency '" ++
          s ++ "'.", dependencyPath index position, context, some s, []⟩ ::
          dependencyErrors env known context index (position + 1) seen rest
      else dependencyErrors env known context index (position + 1) (s :: seen) rest

def dependencyReferenceRule (env : ValidationEnv) (definition : Dict Json) : List WorkflowValidationError :=
  (nodesFrom definition).flatMap fun m =>
    match (Dict.get? m.2 "dependencies").bind Json.asList? with
    | none => []
    | some ds => dependencyErrors env (validNodeIds definition) (strId m.2) m.1 0 [] ds

/-- `node.get("dependencies", [])` as the cycle rule iterates it, restricted to known edges. -/
def cycleEdges (definition : Dict Json) (nodeId : String) (node : Dict Json) :
    Except AcceptError (List String) := do
  let items ← ((Dict.get? node "dependencies").getD (.arr [])).iterate
  return (items.filterMap Json.asStr?).filter fun d =>
    decide (d ≠ nodeId) && decide ((countedIds definition).count d = 1)

/-- The dict comprehension `graph`. -/
def cycleGraph (definition : Dict Json) : Except AcceptError (Dict (List String)) :=
  (nodesFrom definition).foldlM (fun acc m =>
    match strId m.2 with
    | none => .ok acc
    | some i =>
      if (countedIds definition).count i = 1 then do
        let edges ← cycleEdges definition i m.2
        return Dict.set acc i edges
      else .ok acc) []

/-- The variables of the depth-first search; `frames` has the top of `frame_stack` first. -/
structure Search where
  frames : List (String × Nat)
  visited : List String
  active : List String
  stackIndex : Dict Nat
  traversal : List String
  errors : List WorkflowValidationError
  deriving DecidableEq, Repr

namespace Search

/-- Mark a node as visited and active and open its frame. -/
def enter (s : Search) (nodeId : String) (position : Nat) : Search :=
  { s with
    frames := (nodeId, 0) :: s.frames
    visited := nodeId :: s.visited
    active := nodeId :: s.active
    stackIndex := Dict.set s.stackIndex nodeId position
    traversal := s.traversal ++ [nodeId] }

def cycleError (s : Search) (nodeId dependencyId : String) (start : Nat) : WorkflowValidationError :=
  ⟨"cyclic_dependency", "Node '" ++ nodeId ++ "' participates in a cyclic dependency through '" ++
    dependencyId ++ "'.", "dag.nodes", some nodeId, some dependencyId,
    [("cycle_path", String.intercalate "->" (s.traversal.drop start ++ [dependencyId]))]⟩

/-- One round of `while frame_stack`, for the top frame `(nodeId, index)`. -/
def advance (graph : Dict (List String)) (s : Search) (nodeId : String) (index : Nat)
    (rest : List (String × Nat)) : Except AcceptError Search :=
  match Dict.get? graph nodeId with
  | none => .error (.keyError nodeId)
  | some dependencies =>
    match dependencies[index]? with
    | none =>
      if nodeId ∈ s.active then
        .ok { s with
          frames := rest
          active := s.active.erase nodeId
          stackIndex := s.stackIndex.filter fun m => decide (m.1 ≠ nodeId)
          traversal := s.traversal.dropLast }
      else .error (.keyError nodeId)
    | some d =>
      let s := { s with frames := (nodeId, index + 1) :: rest }
      if d ∈ s.active then
        match Dict.get? s.stackIndex d with
        | none => .error (.keyError d)
        | some start => .ok { s with errors := s.errors ++ [s.cycleError nodeId d start] }
      else if Dict.has graph d = false ∨ d ∈ s.visited then .ok s
      else .ok (s.enter d s.traversal.length)

def loop (graph : Dict (List String)) : Nat → Search → Except AcceptError Search
  | 0, s => .ok s
  | rounds + 1, s =>
    match s.frames with
    | [] => .ok s
    | (nodeId, index) :: rest => do
      let s ← s.advance graph nodeId index rest
      loop graph rounds s

/-- Each node is entered once and each of its edges is looked at once. -/
def rounds (graph : Dict (List String)) : Nat := (graph.map fun m => m.2.length + 1).sum

/-- The body of `for start_node_id in graph`. -/
def fromStart (graph : Dict (List String)) (s : Search) (start : String) : Except AcceptError Search :=
  if start ∈ s.visited then .ok s else loop graph (rounds graph) (s.enter start 0)

end Search

def cycleDetectionRule (definition : Dict Json) : Except AcceptError (List WorkflowValidationError) := do
  let graph ← cycleGraph definition
  let s ← (graph.map (·.1)).foldlM (Search.fromStart graph) ⟨[], [], [], [], [], []⟩
  return s.errors

/-- `WorkflowValidator.validate` with the default rules. -/
def validate (env : ValidationEnv) (definition : Dict Json) :
    Except AcceptError (List WorkflowValidationError) := do
  let configuration ← nodeConfigurationRule definition
  let cycles ← cycleDetectionRule definition
  return requiredWorkflowFieldsRule definition ++ requiredNodeFieldsRule definition ++
    nodeIdValidityRule definition ++ uniqueNodeIdsRule definition ++
    handlerDefinitionRule env definition ++ configuration ++
    dependencyReferenceRule env definition ++ cycles

/-- The optional fields `created_at` and `created_by` of both models. -/
def acceptsMetadata (env : ValidationEnv) (m : Dict Json) : Bool :=
  (Dict.get? m "created_at").all env.acceptsDatetime &&
    (Dict.get? m "created_by").all fun j => decide (j = .null) || j.asStr?.isSome

/-- A string field with `min_length=1`. -/
def nonEmptyStr (m : Dict Json) (field : String) : Option String :=
  ((Dict.get? m field).bind Json.asStr?).filter fun s => decide (s ≠ "")

/-- `WorkflowNode.model_validate`. -/
def modelNode (env : ValidationEnv) (j : Json) : Option WorkflowNode := do
  let m ← j.asMapping?
  let id ← nonEmptyStr m "id"
  let handler ← nonEmptyStr m "handler"
  let dependencies ← (((Dict.get? m "dependencies").getD (.arr [])).asList?).bind fun ds => ds.mapM Json.asStr?
  let config ← ((Dict.get? m "config").getD (.obj [])).asMapping?
  guard (acceptsMetadata env m)
  return ⟨id, handler, dependencies, config⟩

/-- `Workflow.model_validate`; `freshId` is the default `uuid4()` of `workflow_id`. -/
def modelWorkflow (env : ValidationEnv) (freshId : Uuid) (m : Dict Json) : Option Workflow := do
  let name ← nonEmptyStr m "name"
  let workflowId ← match Dict.get? m "workflow_id" with
    | none => some freshId
    | some j => env.parseUuid j
  let dag ← ((Dict.get? m "dag").getD (.obj [])).asMapping?
  let items ← ((Dict.get? dag "nodes").getD (.arr [])).asList?
  let nodes ← items.mapM (modelNode env)
  guard (acceptsMetadata env m)
  return ⟨workflowId, name, nodes⟩

end Validation

/-- `WorkflowDefinitionService.accept` with the default rule provider. -/
def accept (env : ValidationEnv) (freshId : Uuid) (definition : Dict Json) : Except AcceptError Workflow := do
  let errors ← Validation.validate env definition
  if errors ≠ [] then .error (.invalidWorkflowDefinition errors)
  else
    match Validation.modelWorkflow env freshId definition with
    | some w => .ok w
    | none => .error .modelValidation

end WorkflowEngine
