import WorkflowEngine.Traversal

/-!
# What validation accepts

On payloads of the shape the API model dumps, the eight rules together ask for exactly a
well-formed graph: what one rule skips, another one reports. On arbitrary JSON objects the
rules answer unless a handler cannot be hashed or the dependencies of an identified node cannot
be iterated over, and the model is stricter than the rules about configurations, metadata and the
workflow's identifier.
-/
namespace WorkflowEngine

namespace Validation

variable {env : ValidationEnv} {definition : Dict Json} {name : String} {nodes : List RawNode}

/-! ## The model -/

/-- What the model asks for beyond the rules. -/
structure ModelFields (env : ValidationEnv) (definition : Dict Json) : Prop where
  workflowId : ∀ j, Dict.get? definition "workflow_id" = some j → (env.parseUuid j).isSome = true
  metadata : acceptsMetadata env definition = true
  nodes : ∀ m ∈ nodesFrom definition, acceptsMetadata env m.2 = true ∧
    ∀ j, Dict.get? m.2 "config" = some j → ∃ c, j = .obj c

theorem nonEmptyStr_eq {m : Dict Json} {field s : String} (h : Dict.get? m field = some (.str s)) (hne : s ≠ "") :
    nonEmptyStr m field = some s := by
  simp [nonEmptyStr, h, Json.asStr?, hne]

theorem modelNode_isSome {m : Dict Json} {n : RawNode} (hmn : Reads m n) (hid : n.id ≠ "")
    (hhandler : n.handler ≠ "") :
    (∃ node, modelNode env (.obj m) = some node) ↔
      acceptsMetadata env m = true ∧ ∀ j, Dict.get? m "config" = some j → ∃ c, j = .obj c := by
  simp only [modelNode, Json.asMapping?, bind, Option.bind_some, nonEmptyStr_eq hmn.id hid,
    nonEmptyStr_eq hmn.handler hhandler, hmn.dependencies, Option.getD_some, Json.asList?, mapM_asStr]
  cases hj : Dict.get? m "config" with
  | none =>
    cases hmeta : acceptsMetadata env m <;> simp [guard]
  | some j =>
    cases j with
    | obj c => cases hmeta : acceptsMetadata env m <;> simp [guard]
    | _ => simp

theorem allowedHandlers_ne {handler : String} (h : handler ∈ allowedHandlers env) : handler ≠ "" := by
  rintro rfl
  unfold allowedHandlers at h
  split at h <;> simp at h

theorem isIdentifier_ne {i : String} (h : isIdentifier i = true) : i ≠ "" := by
  rintro rfl
  cases h

/-- The model takes a well-formed definition exactly when its remaining fields fit. -/
theorem modelWorkflow_isSome {freshId : Uuid} (h : Shape definition name nodes)
    (hw : WellFormedDefinition env name nodes) :
    (∃ w, modelWorkflow env freshId definition = some w) ↔ ModelFields env definition := by
  obtain ⟨dag, maps, hdag, hnodes, hreads⟩ := h.nodes
  have hraw :
      rawNodes definition = some (maps.map .obj) := by simp [rawNodes, hdag, hnodes, Json.asMapping?, Json.asList?]
  have hname : name ≠ "" := by
    rintro rfl
    cases hw.named
  have hmodels : (∃ ns, (maps.map Json.obj).mapM (modelNode env) = some ns) ↔ ∀ m ∈ nodesFrom definition,
      acceptsMetadata env m.2 = true ∧ ∀ j, Dict.get? m.2 "config" = some j → ∃ c, j = .obj c := by
    have hnode : ∀ {m n}, n ∈ nodes → Reads m n → ((∃ node, modelNode env (.obj m) = some node) ↔
        acceptsMetadata env m = true ∧ ∀ j, Dict.get? m "config" = some j → ∃ c, j = .obj c) := fun hn hmn =>
      modelNode_isSome hmn (isIdentifier_ne (hw.identifiers _ hn)) (allowedHandlers_ne (hw.handlers _ hn).1)
    simp only [Pointwise.mapM_eq_some, Pointwise.exists_forall₂]
    constructor
    · intro hall m hm
      obtain ⟨n, hn, hmn⟩ := h.reads_of_mem hm
      rw [zipIdx_nodes hraw] at hm
      obtain ⟨p, hp, rfl⟩ := List.mem_map.1 hm
      exact (hnode hn hmn).1 (hall _ (List.mem_map_of_mem (List.fst_mem_of_mem_zipIdx hp)))
    · intro hall j hj
      obtain ⟨m, hm, rfl⟩ := List.mem_map.1 hj
      obtain ⟨n, hn, hmn⟩ := Pointwise.of_mem_left hreads hm
      obtain ⟨k, hk⟩ := List.mem_iff_getElem?.1 hm
      refine (hnode hn hmn).2 (hall (k, m) ?_)
      rw [zipIdx_nodes hraw]
      exact List.mem_map.2 ⟨(m, k), by simpa [List.mem_zipIdx_iff_getElem?] using hk, rfl⟩
  have hfields :
      ModelFields env definition ↔ (∀ j, Dict.get? definition "workflow_id" = some j →
        (env.parseUuid j).isSome = true) ∧
      acceptsMetadata env definition = true ∧ ∃ ns, (maps.map Json.obj).mapM (modelNode env) = some ns := by
    refine ⟨fun hf => ⟨hf.workflowId, hf.metadata, hmodels.2 hf.nodes⟩, ?_⟩
    rintro ⟨hid, hmeta, hns⟩
    exact ⟨hid, hmeta, hmodels.1 hns⟩
  rw [hfields]
  simp only [modelWorkflow, bind, nonEmptyStr_eq h.name hname, Option.bind_some, hdag, Option.getD_some,
    Json.asMapping?, hnodes, Json.asList?]
  cases hns : (maps.map Json.obj).mapM (modelNode env) with
  | none =>
    cases hid : Dict.get? definition "workflow_id" with
    | none => simp
    | some j => cases env.parseUuid j <;> simp
  | some ns =>
    cases hmeta : acceptsMetadata env definition with
    | false =>
      cases hid : Dict.get? definition "workflow_id" with
      | none => simp [guard]
      | some j => cases env.parseUuid j <;> simp [guard]
    | true =>
      cases hid : Dict.get? definition "workflow_id" with
      | none => simp [guard]
      | some j => cases hparse : env.parseUuid j <;> simp [guard, hparse]

end Validation

open Validation

section Acceptance

variable {env : ValidationEnv} {freshId : Uuid} {definition : Dict Json} {name : String} {nodes : List RawNode}

/-- The rules accept exactly the well-formed graphs, and on what was accepted neither the traversal
graph nor the failure propagation raises. -/
theorem validation_accepts_exactly (env : ValidationEnv) (h : Shape definition name nodes) :
    (∃ errors, validate env definition = .ok errors ∧ (errors = [] ↔ WellFormedDefinition env name nodes)) ∧
    ∀ freshId payload w, accept env freshId payload = .ok w →
      (∃ g, DAG.fromWorkflow w = .ok g) ∧ ∀ st, ∃ ids, evaluateFailedDependencyNodeIds w st = .ok ids := by
  refine ⟨validate_shape env h, fun freshId payload w hw => ?_⟩
  have hclosed := (accept_wellFormed hw).closed
  refine ⟨⟨_, DAG.fromWorkflow_eq hclosed⟩, fun st => ?_⟩
  obtain ⟨ids, hids, -⟩ := evaluateFailedDependencyNodeIds_spec hclosed st
  exact ⟨ids, hids⟩

def rawNode (n : WorkflowNode) : RawNode := ⟨n.id, n.handler, n.dependencies, .obj n.config⟩

theorem shape_payloadOf (w : Workflow) : Shape (DAG.payloadOf w) w.name (w.nodes.map rawNode) := by
  refine ⟨rfl, _, w.nodes.map fun n => [("id", .str n.id), ("handler", .str n.handler),
    ("dependencies", .arr (n.dependencies.map .str)), ("config", .obj n.config)], rfl, ?_, ?_⟩
  · simp [Dict.get?]
  · rw [List.forall₂_map_left_iff, List.forall₂_map_right_iff, List.forall₂_same]
    exact fun n _ => ⟨rfl, rfl, rfl, rfl⟩

theorem validation_accepts_exactly_diamond : validate DAG.plainEnv (DAG.payloadOf DAG.diamond) = .ok [] ∧
    WellFormedDefinition DAG.plainEnv "diamond" (DAG.diamond.nodes.map rawNode) := by
  have h : validate DAG.plainEnv (DAG.payloadOf DAG.diamond) = .ok [] := by decide +kernel
  obtain ⟨⟨errors, herrors, hiff⟩, -⟩ := validation_accepts_exactly DAG.plainEnv (shape_payloadOf DAG.diamond)
  exact ⟨h, hiff.1 (Except.ok.inj (herrors.symm.trans h))⟩

/-- `accept` gives a workflow or a non-empty list of errors: every rule returns a list, and the model
can be built when all of them are empty. -/
structure NeverCrashes (env : ValidationEnv) (freshId : Uuid) (definition : Dict Json) : Prop where
  outcome : (∃ w, accept env freshId definition = .ok w) ∨
    ∃ errors, errors ≠ [] ∧ accept env freshId definition = .error (.invalidWorkflowDefinition errors)
  rules : ∃ errors, validate env definition = .ok errors
  construction : validate env definition = .ok [] → ∃ w, modelWorkflow env freshId definition = some w

theorem accept_never_crashes_iff (env : ValidationEnv) (freshId : Uuid) (definition : Dict Json) :
    NeverCrashes env freshId definition ↔ Hashes definition ∧ Iterates definition ∧
      ((∃ name nodes, Shape definition name nodes ∧ WellFormedDefinition env name nodes) →
        ModelFields env definition) := by
  constructor
  · intro h
    obtain ⟨hhash, hiter⟩ := (validate_ok env).1 h.rules
    refine ⟨hhash, hiter, ?_⟩
    rintro ⟨name, nodes, hshape, hw⟩
    obtain ⟨errors, herrors, hiff⟩ := validate_shape env hshape
    exact (modelWorkflow_isSome hshape hw).1 (h.construction (hiff.2 hw ▸ herrors))
  · rintro ⟨hhash, hiter, hfields⟩
    obtain ⟨errors, herrors⟩ := (validate_ok env).2 ⟨hhash, hiter⟩
    have hmodel : validate env definition = .ok [] → ∃ w, modelWorkflow env freshId definition = some w := by
      intro hnil
      obtain ⟨name, nodes, hshape⟩ := shape_of_validate hnil
      obtain ⟨errors', herrors', hiff⟩ := validate_shape env hshape
      have hw := hiff.1 (Except.ok.inj (herrors'.symm.trans hnil))
      exact (modelWorkflow_isSome hshape hw).2 (hfields ⟨name, nodes, hshape, hw⟩)
    refine ⟨?_, ⟨errors, herrors⟩, hmodel⟩
    by_cases hnil : errors = []
    · subst hnil
      obtain ⟨w, hw⟩ := hmodel herrors
      exact .inl ⟨w, by simp [accept, herrors, hw, bind, Except.bind]⟩
    · exact .inr ⟨errors, hnil, by simp [accept, herrors, hnil, bind, Except.bind]⟩

/-- A payload with one node `a`. -/
def singleNode (fields : Dict Json) : Dict Json :=
  [("name", .str "w"), ("dag", .obj [("nodes", .arr [.obj (("id", .str "a") :: fields)])])]

/-- A handler that is a list, dependencies that are null, a configuration that is null. -/
theorem accept_never_crashes_counterexample :
    accept DAG.plainEnv (.v4 0) (singleNode [("handler", .arr []), ("dependencies", .arr [])]) =
      .error (.typeError "unhashable type") ∧
    accept DAG.plainEnv (.v4 0) (singleNode [("handler", .str "input"), ("dependencies", .null)]) =
      .error (.typeError "object is not iterable") ∧
    accept DAG.plainEnv (.v4 0) (singleNode [("handler", .str "input"), ("dependencies", .arr []),
      ("config", .null)]) =
      .error .modelValidation ∧
    ¬ NeverCrashes DAG.plainEnv (.v4 0) (singleNode [("handler", .arr []), ("dependencies", .arr [])]) := by
  have hlist : accept DAG.plainEnv (.v4 0) (singleNode [("handler", .arr []), ("dependencies", .arr [])]) =
      .error (.typeError "unhashable type") := by decide +kernel
  refine ⟨hlist, by decide +kernel, by decide +kernel, fun h => ?_⟩
  rcases h.outcome with ⟨w, hw⟩ | ⟨errors, -, he⟩
  · cases hlist.symm.trans hw
  · cases hlist.symm.trans he

end Acceptance

end WorkflowEngine
