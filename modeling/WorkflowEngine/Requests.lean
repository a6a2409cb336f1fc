import WorkflowEngine.Dispatching

/-!
# Workflow submissions

A submission that reaches the endpoint has passed the request schema, so its nodes already have the
types of the model. `submit` validates the dumped request once more and builds the workflow from
it. No dump of a request makes the validation raise anything but its own error, and what is built
has the submitted nodes in the submitted order.
-/
namespace WorkflowEngine

/-- A `WorkflowNode` of a request. The dumped `created_at` is an instant, which the model takes again. -/
structure WorkflowNodeRequest (env : ValidationEnv) where
  id : String
  handler : String
  dependencies : List String
  config : Dict Json
  createdAt : Json
  createdBy : Option String
  id_ne : id ≠ ""
  handler_ne : handler ≠ ""
  createdAt_ok : env.acceptsDatetime createdAt = true

structure WorkflowSubmissionRequest (env : ValidationEnv) where
  name : String
  nodes : List (WorkflowNodeRequest env)
  createdBy : Option String

namespace WorkflowNodeRequest

variable {env : ValidationEnv}

def modelDump (n : WorkflowNodeRequest env) : Dict Json :=
  [("id", .str n.id), ("handler", .str n.handler), ("dependencies", .arr (n.dependencies.map .str)),
    ("config", .obj n.config), ("created_at", n.createdAt), ("created_by", n.createdBy.elim .null .str)]

/-- The node that the workflow gets. -/
def node (n : WorkflowNodeRequest env) : WorkflowNode := ⟨n.id, n.handler, n.dependencies, n.config⟩

/-- The node as the rules see it. -/
def raw (n : WorkflowNodeRequest env) : Validation.RawNode := ⟨n.id, n.handler, n.dependencies, .obj n.config⟩

end WorkflowNodeRequest

namespace WorkflowSubmissionRequest

variable {env : ValidationEnv}

def modelDump (r : WorkflowSubmissionRequest env) : Dict Json :=
  [("name", .str r.name), ("dag", .obj [("nodes", .arr (r.nodes.map fun n => .obj n.modelDump))]),
    ("created_by", r.createdBy.elim .null .str)]

/-- The workflow that is built from the request. -/
def workflow (r : WorkflowSubmissionRequest env) (workflowId : Uuid) : Workflow :=
  ⟨workflowId, r.name, r.nodes.map (·.node)⟩

/-- What the rules ask of the request. -/
def WellFormed (r : WorkflowSubmissionRequest env) : Prop :=
  Validation.WellFormedDefinition env r.name (r.nodes.map (·.raw))

end WorkflowSubmissionRequest

/-! ## The service -/

structure WorkflowSubmission where
  executionId : Uuid
  name : String
  createdAt : Time
  deriving DecidableEq, Repr

/-- `WorkflowDefinitionService.submit` with what it returns. -/
def WorkflowDefinitionService.submit (env : ValidationEnv) (definition : Dict Json)
    (workflowId executionId : Uuid) (now : Time) (db : Database) :
    Except SubmitError (WorkflowSubmission × Database) :=
  match accept env workflowId definition with
  | .error e => .error (.rejected e)
  | .ok w =>
    match persistSubmission w executionId now db with
    | .error e => .error (.raised e)
    | .ok db => .ok (⟨executionId, w.name, now⟩, db)

variable {env : ValidationEnv} {definition : Dict Json} {workflowId executionId : Uuid} {now : Time} {db : Database}

/-- The transaction of the service is that of the system. -/
theorem submit_eq_map : submit env definition workflowId executionId now db =
    (WorkflowDefinitionService.submit env definition workflowId executionId now db).map (·.2) := by
  unfold submit WorkflowDefinitionService.submit
  cases accept env workflowId definition with
  | error e => rfl
  | ok w => cases hpersist : persistSubmission w executionId now db <;> simp [hpersist, Except.map]

/-- Only an identifier that is taken makes the inserts fail. -/
theorem persistSubmission_error {w : Workflow} {error : PyError}
    (h : persistSubmission w executionId now db = .error error) :
    error = .persistence := by
  unfold persistSubmission at h
  cases hworkflow : db.createWorkflow w with
  | error e =>
    rw [hworkflow] at h
    cases h
    unfold Database.createWorkflow at hworkflow
    split at hworkflow <;> cases hworkflow
    rfl
  | ok db₁ =>
    rw [hworkflow] at h
    cases hexecution : db₁.createExecution (pendingExecution executionId w.workflowId now) with
    | error e =>
      simp only [bind, Except.bind, hexecution] at h
      cases h
      unfold Database.createExecution at hexecution
      split at hexecution <;> cases hexecution
      rfl
    | ok db₂ =>
      simp only [bind, Except.bind, hexecution, pure, Except.pure] at h
      cases h

/-! ## Validation of a dumped request -/

section Accepts

variable {r : WorkflowSubmissionRequest env} {n : WorkflowNodeRequest env}

open Validation

theorem WorkflowNodeRequest.reads (n : WorkflowNodeRequest env) : Reads n.modelDump n.raw :=
  ⟨rfl, rfl, rfl, rfl⟩

theorem WorkflowSubmissionRequest.shape (r : WorkflowSubmissionRequest env) :
    Shape r.modelDump r.name (r.nodes.map (·.raw)) := by
  refine ⟨rfl, [("nodes", .arr (r.nodes.map fun n => .obj n.modelDump))], r.nodes.map (·.modelDump), rfl, ?_, ?_⟩
  · rw [List.map_map]
    rfl
  · rw [List.forall₂_map_left_iff, List.forall₂_map_right_iff, List.forall₂_same]
    exact fun n _ => n.reads

theorem acceptsMetadata_of (text : Option String) {m : Dict Json}
    (hby : Dict.get? m "created_by" = some (text.elim .null .str))
    (hat : (Dict.get? m "created_at").all env.acceptsDatetime = true) : acceptsMetadata env m = true := by
  rw [acceptsMetadata, hat, hby]
  cases text with
  | none => simp
  | some text => simp [Json.asStr?]

theorem nonEmptyStr_of {m : Dict Json} {field text : String} (hget : Dict.get? m field = some (.str text))
    (hne : text ≠ "") :
    nonEmptyStr m field = some text := by
  rw [nonEmptyStr, hget]
  simp [Json.asStr?, Option.filter, hne]

/-- The model builds the node again that the request has named. -/
theorem WorkflowNodeRequest.modelNode_modelDump (n : WorkflowNodeRequest env) :
    modelNode env (.obj n.modelDump) = some n.node := by
  have hmeta : acceptsMetadata env n.modelDump = true := by
    refine acceptsMetadata_of n.createdBy rfl ?_
    have hget : Dict.get? n.modelDump "created_at" = some n.createdAt := rfl
    rw [hget]
    exact n.createdAt_ok
  have hdeps : Dict.get? n.modelDump "dependencies" = some (.arr (n.dependencies.map .str)) := rfl
  have hconfig : Dict.get? n.modelDump "config" = some (.obj n.config) := rfl
  simp only [modelNode, Json.asMapping?, Option.bind_eq_bind, Option.bind_some, nonEmptyStr_of (n.reads.id) n.id_ne,
    nonEmptyStr_of (n.reads.handler) n.handler_ne, hdeps, hconfig, Option.getD_some, Json.asList?, mapM_asStr, hmeta]
  rfl

theorem WorkflowSubmissionRequest.modelWorkflow_modelDump (r : WorkflowSubmissionRequest env) (hne : r.name ≠ "") :
    modelWorkflow env workflowId r.modelDump = some (r.workflow workflowId) := by
  have hmeta : acceptsMetadata env r.modelDump = true := acceptsMetadata_of r.createdBy rfl rfl
  have hid : Dict.get? r.modelDump "workflow_id" = none := rfl
  have hdag : Dict.get? r.modelDump "dag" = some (.obj [("nodes", .arr (r.nodes.map fun n => .obj n.modelDump))]) :=
    rfl
  have hnodes : Dict.get? [("nodes", Json.arr (r.nodes.map fun n => .obj n.modelDump))] "nodes" =
      some (.arr (r.nodes.map fun n => .obj n.modelDump)) := rfl
  have hmapM : (r.nodes.map fun n => Json.obj n.modelDump).mapM (modelNode env) = some (r.nodes.map (·.node)) := by
    rw [Pointwise.mapM_eq_some, List.forall₂_map_left_iff, List.forall₂_map_right_iff, List.forall₂_same]
    exact fun n _ => n.modelNode_modelDump
  simp only [modelWorkflow, nonEmptyStr_of r.shape.name hne, hid, hdag, Option.getD_some, Json.asMapping?,
    Option.bind_eq_bind, Option.bind_some, hnodes, Json.asList?, hmapM, hmeta]
  rfl

/-- A request is accepted as the workflow that it describes, or rejected with reasons. -/
theorem WorkflowSubmissionRequest.accept_modelDump (r : WorkflowSubmissionRequest env) (workflowId : Uuid) :
    (r.WellFormed ∧ accept env workflowId r.modelDump = .ok (r.workflow workflowId)) ∨
      ¬ r.WellFormed ∧ ∃ errors, errors ≠ [] ∧
        accept env workflowId r.modelDump = .error (.invalidWorkflowDefinition errors) := by
  obtain ⟨errors, herrors, hiff⟩ := validate_shape env r.shape
  by_cases hnil : errors = []
  · have hwell := hiff.1 hnil
    have hne : r.name ≠ "" := by
      intro hempty
      have hblank := hwell.named
      rw [hempty] at hblank
      simp [blank] at hblank
    refine .inl ⟨hwell, ?_⟩
    simp [accept, herrors, hnil, r.modelWorkflow_modelDump hne, bind, Except.bind]
  · exact .inr ⟨fun hwell => hnil (hiff.2 hwell), errors, hnil, by simp [accept, herrors, hnil, bind, Except.bind]⟩

end Accepts

end WorkflowEngine
