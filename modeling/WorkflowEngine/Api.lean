import WorkflowEngine.Deliveries
import WorkflowEngine.Requests
import WorkflowEngine.Timeline

/-!
# The HTTP interface

Each endpoint answers with what its service has returned or raised, and lets every other exception
through. A request is not one instant: a trigger reads and then commits, a status or a result is
read by two statements, and the orchestrators commit in between. What a client can rely on is said
about the whole run in which its requests are served.
-/
namespace WorkflowEngine

open Database

/-! ## Responses -/

/-- `_serialize_status`. -/
def serializeStatus (value : String) : String := value.toUpper

structure NodeExecutionStatusResponseItem where
  nodeId : String
  status : String
  createdAt : Time
  startedAt : Option Time
  completedAt : Option Time
  deriving DecidableEq, Repr

structure WorkflowExecutionStatusResponsePayload where
  executionId : Uuid
  workflowId : Uuid
  status : String
  createdAt : Time
  startedAt : Option Time
  completedAt : Option Time
  nodes : List NodeExecutionStatusResponseItem
  deriving DecidableEq, Repr

/-- The one payload whose status is not serialized in upper case. -/
structure WorkflowTriggerResponse where
  executionId : Uuid
  status : String
  deriving DecidableEq, Repr

structure WorkflowResultNodeResponseItem where
  nodeId : String
  status : String
  outputData : Json
  errorMessage : Option String
  errorType : Option String
  createdAt : Time
  startedAt : Option Time
  completedAt : Option Time
  deriving DecidableEq, Repr

structure WorkflowExecutionResultsResponsePayload where
  executionId : Uuid
  workflowId : Uuid
  status : String
  createdAt : Time
  startedAt : Option Time
  completedAt : Option Time
  message : Option String
  results : Option (List WorkflowResultNodeResponseItem)
  deriving DecidableEq, Repr

inductive ResponseBody where
  | submission (submission : WorkflowSubmission)
  | validationErrors (errorCode message : String) (errors : List WorkflowValidationError)
  | error (errorCode message : String)
  | detail (detail : String)
  | trigger (payload : WorkflowTriggerResponse)
  | status (payload : WorkflowExecutionStatusResponsePayload)
  | results (payload : WorkflowExecutionResultsResponsePayload)
  deriving DecidableEq, Repr

structure Response where
  statusCode : Nat
  body : ResponseBody
  deriving DecidableEq, Repr

def NodeExecutionStatusResponseItem.span (item : NodeExecutionStatusResponseItem) : Lifespan Time :=
  ⟨item.createdAt, item.startedAt, item.completedAt⟩

def WorkflowExecutionStatusResponsePayload.span (payload : WorkflowExecutionStatusResponsePayload) : Lifespan Time :=
  ⟨payload.createdAt, payload.startedAt, payload.completedAt⟩

theorem WorkflowExecutionStatus.serialized_injective {a b : WorkflowExecutionStatus}
    (h : serializeStatus a.value = serializeStatus b.value) : a = b := by
  revert h
  cases a <;> cases b <;> first | exact fun _ => rfl | decide +kernel

/-! ## Endpoints -/

def submitWorkflow : Except SubmitError (WorkflowSubmission × Database) → Except SubmitError Response
  | .ok (submission, _) => .ok ⟨201, .submission submission⟩
  | .error (.rejected (.invalidWorkflowDefinition errors)) =>
    .ok ⟨422, .validationErrors "workflow_validation_failed" "Workflow definition failed validation." errors⟩
  | .error (.raised .persistence) =>
    .ok ⟨503, .error "workflow_persistence_failed" "Workflow could not be persisted. Please try again later."⟩
  | .error e => .error e

def triggerWorkflowExecution (executionId : Uuid) : Except PyError Database → Except PyError Response
  | .ok _ => .ok ⟨202, .trigger ⟨executionId, WorkflowExecutionStatus.running.value⟩⟩
  | .error (.executionNotFound _) =>
    .ok ⟨404, .error "workflow_execution_not_found" "Workflow execution was not found."⟩
  | .error (.executionNotTriggerable _ _) =>
    .ok ⟨422, .error "workflow_execution_not_triggerable"
      "Workflow execution cannot be triggered from its current state."⟩
  | .error .persistence =>
    .ok ⟨503, .error "workflow_trigger_persistence_failed"
      "Workflow trigger could not be accepted. Please try again later."⟩
  | .error e => .error e

def executionNotFound : Response := ⟨404, .detail "Workflow execution not found."⟩

def statusItem (r : NodeExecutionRecord) : NodeExecutionStatusResponseItem :=
  ⟨r.nodeId, serializeStatus r.status.value, r.createdAt, r.startedAt, r.completedAt⟩

def statusPayload (x : WorkflowExecutionRecord) (nodeExecutions : List NodeExecutionRecord) :
    WorkflowExecutionStatusResponsePayload :=
  ⟨x.executionId, x.workflowId, serializeStatus x.status.value, x.createdAt, x.startedAt, x.completedAt,
    nodeExecutions.map statusItem⟩

def getWorkflowExecution : Option WorkflowExecutionStatusService.WorkflowExecutionStatus → Response
  | none => executionNotFound
  | some result => ⟨200, .status (statusPayload result.execution result.nodeExecutions)⟩

def resultItem (r : WorkflowNodeResult) : WorkflowResultNodeResponseItem :=
  ⟨r.nodeId, serializeStatus r.status.value, r.outputData, r.errorMessage, r.errorType, r.createdAt,
    r.startedAt, r.completedAt⟩

def resultsPayload (result : WorkflowExecutionResults) : WorkflowExecutionResultsResponsePayload :=
  let x := result.execution
  ⟨x.executionId, x.workflowId, serializeStatus x.status.value, x.createdAt, x.startedAt, x.completedAt,
    result.message, result.results.map (·.map resultItem)⟩

def getWorkflowExecutionResults : Option WorkflowExecutionResults → Response
  | none => executionNotFound
  | some result => ⟨200, .results (resultsPayload result)⟩

/-! ## Requests in a run -/

structure WorkflowTriggerRequest where
  input : Dict Json
  deriving DecidableEq, Repr

inductive ApiRequest (env : ValidationEnv) where
  | submitWorkflow (definition : WorkflowSubmissionRequest env)
  | triggerWorkflowExecution (executionId : Uuid) (trigger : Option WorkflowTriggerRequest)
  | getWorkflowExecution (executionId : Uuid)
  | getWorkflowExecutionResults (executionId : Uuid)

/-- What `submit` returns or raises in `s`. -/
def System.submission (cfg : Config) (s : System) (definition : WorkflowSubmissionRequest cfg.validation) :
    Except SubmitError (WorkflowSubmission × Database) :=
  WorkflowDefinitionService.submit cfg.validation definition.modelDump (.v4 s.draws) (.v4 (s.draws + 1)) s.now s.db

namespace OpenSystem

open WorkflowEngine.System (Upheld)

/-- A request that begins in `s` and leaves `t` with its response. A submission or a trigger takes
effect in `m`; of a read, `m` is the state of the first statement and `t` that of the second. -/
inductive Serves (cfg : Config) (intake : Intake) : ApiRequest cfg.validation → OpenSystem → OpenSystem → OpenSystem →
    Response → Prop where
  | submitted {definition : WorkflowSubmissionRequest cfg.validation} {s : OpenSystem} {response : Response}
      (answer : submitWorkflow (s.system.submission cfg definition) = .ok response) :
      Serves cfg intake (.submitWorkflow definition) s s
        ((step cfg intake s (.own (.submit definition.modelDump))).getD s) response
  | refused {executionId : Uuid} {trigger : Option WorkflowTriggerRequest} {s : OpenSystem} {error : PyError}
      {response : Response} (read : triggerRead executionId s.system.db = .error error)
      (answer : triggerWorkflowExecution executionId (.error error) = .ok response) :
      Serves cfg intake (.triggerWorkflowExecution executionId trigger) s s s response
  | triggered {executionId : Uuid} {trigger : Option WorkflowTriggerRequest} {s s₁ m t : OpenSystem} {k : Nat}
      {x : WorkflowExecutionRecord} {response : Response} (reads : triggerRead executionId s.system.db = .ok x)
      (read : step cfg intake s (.own (.readTrigger executionId (trigger.map (·.input)))) = some s₁)
      (waits : Later cfg intake s₁ m) (request : m.system.triggers[k]? = some ⟨x, trigger.map (·.input)⟩)
      (commit : step cfg intake m (.own (.commitTrigger k)) = some t)
      (answer : triggerWorkflowExecution executionId
        (triggerCommit x (trigger.map (·.input)) (.v4 m.system.draws) m.system.now m.system.db) = .ok response) :
      Serves cfg intake (.triggerWorkflowExecution executionId trigger) s m t response
  | status {executionId : Uuid} {s t : OpenSystem} {rows : List NodeExecutionRecord} (waits : Later cfg intake s t)
      (nodes : rows.Perm (t.system.db.getNodeExecutionsForExecution executionId)) :
      Serves cfg intake (.getWorkflowExecution executionId) s s t
        (getWorkflowExecution (WorkflowExecutionStatusService.get executionId s.system.db rows))
  | results {executionId : Uuid} {s t : OpenSystem} {rows : List NodeExecutionRecord} (waits : Later cfg intake s t)
      (nodes : rows.Perm (t.system.db.getNodeExecutionsForExecution executionId)) :
      Serves cfg intake (.getWorkflowExecutionResults executionId) s s t
        (getWorkflowExecutionResults (WorkflowExecutionResultsService.get executionId s.system.db rows))

variable {cfg : Config} {intake : Intake} {request : ApiRequest cfg.validation}
  {s m t s' m' t' u : OpenSystem} {e : Uuid}
  {x : WorkflowExecutionRecord} {response response' : Response}

/-- A request takes effect between its begin and its response. -/
theorem Serves.instants (h : Serves cfg intake request s m t response) :
    Later cfg intake s m ∧ Later cfg intake m t := by
  cases h with
  | @submitted definition =>
    refine ⟨.start, ?_⟩
    cases hstep : step cfg intake s (.own (.submit definition.modelDump)) with
    | none => exact .start
    | some u => exact .next _ .start trivial hstep
  | refused => exact ⟨.start, .start⟩
  | triggered _ read waits _ commit =>
    exact ⟨(Transition.Reachable.next _ .start trivial read).trans waits, .next _ .start trivial commit⟩
  | status waits => exact ⟨.start, waits⟩
  | results waits => exact ⟨.start, waits⟩

/-- A configuration whose validation takes every instant. -/
def apiConfig : Config := { System.sampleConfig with validation := ⟨false, fun _ => "", fun _ => none, fun _ => true⟩ }

/-- `fetch` and then `report`. -/
def chainRequest : WorkflowSubmissionRequest apiConfig.validation where
  name := "sample"
  nodes := [⟨"fetch", "input", [], [], .null, none, by decide, by decide, rfl⟩,
    ⟨"report", "output", ["fetch"], [], .null, none, by decide, by decide, rfl⟩]
  createdBy := none

def firstTrigger : WorkflowTriggerRequest := ⟨[("url", .str "a")]⟩

/-- Two triggers have read the execution as pending when the first of them commits. -/
def racing : List System.Action :=
  [.submit chainRequest.modelDump, .readTrigger (.v4 1) (some firstTrigger.input), .readTrigger (.v4 1) none,
    .commitTrigger 0, .commitTrigger 0]

def raced (n : Nat) : OpenSystem := ⟨System.reached apiConfig (racing.take n), []⟩

theorem raced_reachable (n : Nat) : Reachable apiConfig sampleIntake (raced n) :=
  later_own (s := init) (System.reachable_reached _ _)

theorem raced_step :
    step apiConfig sampleIntake (raced 1) (.own (.readTrigger (.v4 1) (some firstTrigger.input))) = some (raced 2) ∧
    step apiConfig sampleIntake (raced 2) (.own (.readTrigger (.v4 1) none)) = some (raced 3) ∧
    step apiConfig sampleIntake (raced 3) (.own (.commitTrigger 0)) = some (raced 4) ∧
    step apiConfig sampleIntake (raced 4) (.own (.commitTrigger 0)) = some (raced 5) := by
  refine ⟨?_, ?_, ?_, ?_⟩ <;> decide +kernel

/-- The pending execution that both triggers have read. -/
def racedExecution : WorkflowExecutionRecord := ⟨.v4 1, .v4 0, .pending, [], 0, none, none⟩

theorem raced_first :
    Serves apiConfig sampleIntake (.triggerWorkflowExecution (.v4 1) (some firstTrigger)) (raced 1) (raced 3)
      (raced 4) ⟨202, .trigger ⟨.v4 1, "running"⟩⟩ :=
  .triggered (k := 0) (x := racedExecution) (by decide +kernel) raced_step.1 (.next _ .start trivial raced_step.2.1)
    (by decide +kernel) raced_step.2.2.1 (by decide +kernel)

theorem raced_second :
    Serves apiConfig sampleIntake (.triggerWorkflowExecution (.v4 1) none) (raced 2) (raced 4) (raced 5)
      ⟨422, .error "workflow_execution_not_triggerable"
        "Workflow execution cannot be triggered from its current state."⟩ :=
  .triggered (k := 0) (x := racedExecution) (by decide +kernel) raced_step.2.1
    (.next _ .start trivial raced_step.2.2.1) (by decide +kernel) raced_step.2.2.2 (by decide +kernel)

/-! ## One instant for each response -/

/-- A whole trigger on the database of `s`, with nothing committed between its read and its update. -/
def trigger (s : System) (e : Uuid) (request : Option WorkflowTriggerRequest) : Except PyError Database :=
  (triggerRead e s.db).bind fun x => triggerCommit x (request.map (·.input)) (.v4 s.draws) s.now s.db

/-- What the request is answered as one transaction of `s`. -/
def Answers (cfg : Config) (s : System) : ApiRequest cfg.validation → Response → Prop
  | .submitWorkflow definition, response => WorkflowEngine.submitWorkflow (s.submission cfg definition) = .ok response
  | .triggerWorkflowExecution e request, response =>
    WorkflowEngine.triggerWorkflowExecution e (trigger s e request) = .ok response
  | .getWorkflowExecution e, response => ∃ rows : List NodeExecutionRecord,
      rows.Perm (s.db.getNodeExecutionsForExecution e) ∧
      response = WorkflowEngine.getWorkflowExecution (WorkflowExecutionStatusService.get e s.db rows)
  | .getWorkflowExecutionResults e, response => ∃ rows : List NodeExecutionRecord,
      rows.Perm (s.db.getNodeExecutionsForExecution e) ∧
      response = WorkflowEngine.getWorkflowExecutionResults (WorkflowExecutionResultsService.get e s.db rows)

/-- The database that the request as one transaction of `s` leaves, which is the old one where it raises. -/
def effect (cfg : Config) (s : System) : ApiRequest cfg.validation → Database
  | .submitWorkflow definition => ((s.submission cfg definition).map (·.2)).toOption.getD s.db
  | .triggerWorkflowExecution e request => (trigger s e request).toOption.getD s.db
  | .getWorkflowExecution _ | .getWorkflowExecutionResults _ => s.db

/-- The request as one transaction that finds the database of `m` and leaves that of `m'`, with no
step of anyone else in between. -/
structure Atomic (cfg : Config) (intake : Intake) (m m' : OpenSystem) (request : ApiRequest cfg.validation)
    (response : Response) : Prop where
  alone : m' = m ∨ ∃ a, step cfg intake m (.own a) = some m'
  answers : Answers cfg m.system request response
  effect : m'.system.db = effect cfg m.system request

theorem triggerRead_eq_ok {db : Database} (h : triggerRead e db = .ok x) :
    db.getExecutionById e = some x ∧ x.executionId = e ∧ x.status = .pending := by
  unfold triggerRead at h
  split at h
  · cases h
  · rename_i x' hx
    split at h
    · cases h
    · rename_i hpending
      cases h
      exact ⟨hx, (execution_some hx).2, not_not.1 hpending⟩

/-- A trigger sees of the execution only its identifier and its status. -/
theorem triggerCommit_congr {x x' : WorkflowExecutionRecord} {input : Option (Dict Json)}
    {messageId : Uuid} {now : Time} {db : Database} (hid : x'.executionId = x.executionId)
    (hst : x'.status = x.status) :
    triggerCommit x' input messageId now db = triggerCommit x input messageId now db := by
  simp only [triggerCommit, hid, hst]

/-- The conditional update of an execution that is no longer pending. -/
theorem triggerCommit_of_not_pending {db : Database} {input : Option (Dict Json)} {messageId : Uuid} {now : Time}
    {x' : WorkflowExecutionRecord} (hs : db.Sound) (hx : db.getExecutionById x.executionId = some x')
    (hst : x'.status ≠ .pending) :
    triggerCommit x input messageId now db = .error (.executionNotTriggerable x.executionId x.status.value) := by
  have hfst : (db.updateExecutionIfCurrent x.executionId .pending .running (some now) none input).1 = false := by
    rw [Bool.eq_false_iff, ne_eq, updateExecutionIfCurrent_fst hs]
    rintro ⟨x₁, hx₁, hpending⟩
    cases hx.symm.trans hx₁
    exact hst hpending
  simp [triggerCommit, hfst]

/-- What has been read as pending decides nothing: the conditional update does. -/
theorem triggered_atomic {s : System} {request : Option WorkflowTriggerRequest} {x' : WorkflowExecutionRecord}
    {outcome : Except PyError Database}
    (hcommit : triggerCommit x (request.map (·.input)) (.v4 s.draws) s.now s.db = outcome) (hs : s.db.Sound)
    (hid : x.executionId = e) (hpending : x.status = .pending) (hx' : s.db.getExecutionById e = some x') :
    triggerWorkflowExecution e (trigger s e request) = triggerWorkflowExecution e outcome ∧
      (trigger s e request).toOption = outcome.toOption := by
  subst hid
  by_cases hst : x'.status = .pending
  · have hread : triggerRead x.executionId s.db = .ok x' := by simp [triggerRead, hx', hst]
    rw [trigger, hread, Except.bind, triggerCommit_congr (execution_some hx').2 (hst.trans hpending.symm), hcommit]
    exact ⟨rfl, rfl⟩
  · have hread : triggerRead x.executionId s.db = .error (.executionNotTriggerable x.executionId x'.status.value) := by
      simp [triggerRead, hx', hst]
    rw [triggerCommit_of_not_pending hs hx' hst] at hcommit
    rw [trigger, hread, ← hcommit]
    exact ⟨rfl, rfl⟩

/-- The commit of a trigger replaces the database only if the service returns. -/
theorem commitTrigger_db {k : Nat} {input : Option (Dict Json)} (hrequest : m.system.triggers[k]? = some ⟨x, input⟩)
    (hstep : step cfg intake m (.own (.commitTrigger k)) = some t) :
    t.system.db =
      (triggerCommit x input (.v4 m.system.draws) m.system.now m.system.db).toOption.getD m.system.db := by
  simp only [step, System.step, System.commitTrigger, hrequest, Option.map_eq_some_iff] at hstep
  obtain ⟨b, hb, rfl⟩ := hstep
  cases hcommit : triggerCommit x input (.v4 m.system.draws) m.system.now m.system.db with
  | ok db =>
    rw [hcommit] at hb
    cases hb
    rfl
  | error error =>
    rw [hcommit] at hb
    cases hb
    rfl

theorem step_submit {definition : WorkflowSubmissionRequest cfg.validation} {db : Database}
    (h : submit cfg.validation definition.modelDump (.v4 s.system.draws) (.v4 (s.system.draws + 1)) s.system.now
      s.system.db = .ok db) :
    step cfg intake s (.own (.submit definition.modelDump)) =
      some { s with system := { s.system with db := db, draws := s.system.draws + 2 } } := by
  simp only [step, System.step, System.submitDefinition, h, Option.map_some]

theorem step_submit_error {definition : WorkflowSubmissionRequest cfg.validation} {error : SubmitError}
    (h : s.system.submission cfg definition = .error error) :
    step cfg intake s (.own (.submit definition.modelDump)) = none := by
  have hraised : WorkflowDefinitionService.submit cfg.validation definition.modelDump (.v4 s.system.draws)
    (.v4 (s.system.draws + 1)) s.system.now s.system.db = .error error := h
  simp only [step, System.step, System.submitDefinition, submit_eq_map, hraised, Except.map, Option.map_none]

/-- A submission is at most one step, and this step leaves what the service stores. -/
theorem submit_alone (definition : WorkflowSubmissionRequest cfg.validation) (s : OpenSystem) :
    ((step cfg intake s (.own (.submit definition.modelDump))).getD s = s ∨
        ∃ a, step cfg intake s (.own a) = some ((step cfg intake s (.own (.submit definition.modelDump))).getD s)) ∧
      ((step cfg intake s (.own (.submit definition.modelDump))).getD s).system.db =
        effect cfg s.system (.submitWorkflow definition) := by
  cases hsubmission : s.system.submission cfg definition with
  | ok stored =>
    have hstep : step cfg intake s (.own (.submit definition.modelDump)) =
        some { s with system := { s.system with db := stored.2, draws := s.system.draws + 2 } } :=
      step_submit (by rw [submit_eq_map, show WorkflowDefinitionService.submit _ _ _ _ _ _ = _ from hsubmission]; rfl)
    refine ⟨.inr ⟨_, by rw [hstep]; rfl⟩, ?_⟩
    rw [hstep, effect, hsubmission]
    rfl
  | error error =>
    rw [step_submit_error hsubmission, effect, hsubmission]
    exact ⟨.inl rfl, rfl⟩

/-- The results of an execution that is not completed say nothing of its nodes. -/
theorem results_of_not_completed {db : Database} {rows rows' : List NodeExecutionRecord}
    (hx : db.getExecutionById e = some x) (hst : x.status ≠ .completed) :
    WorkflowExecutionResultsService.get e db rows = WorkflowExecutionResultsService.get e db rows' := by
  simp only [WorkflowExecutionResultsService.get, WorkflowExecutionStatusService.get, hx]
  cases hs : x.status with
  | completed => exact absurd hs hst
  | pending | running | failed => rfl

/-- Whatever the interleaving, a submission, a trigger and a result are answered as by one transaction
at one instant between request and response, and have exactly its effect. -/
theorem responses_linearizable (hs : Reachable cfg intake s) (h : Serves cfg intake request s m t response)
    (hrequest : ∀ e, request ≠ .getWorkflowExecution e) :
    ∃ m', Later cfg intake s m ∧ Atomic cfg intake m m' request response ∧ Later cfg intake m' t := by
  have hupheld : Upheld cfg s.system := later_upheld System.upheld_init hs
  obtain ⟨hbegin, hend⟩ := h.instants
  have hmid := (later_upheld hupheld hbegin).consistent.sound
  have hfollows := later_follows hupheld (reachable_clocked hs) hbegin
  cases h with
  | submitted answer =>
    obtain ⟨halone, heffect⟩ := @submit_alone cfg intake _ s
    exact ⟨_, hbegin, ⟨halone, answer, heffect⟩, .start⟩
  | refused read answer =>
    refine ⟨_, hbegin, ⟨.inl rfl, ?_, ?_⟩, .start⟩
    · rw [Answers, trigger, read]
      exact answer
    · rw [effect, trigger, read]
      rfl
  | triggered reads _ _ request commit answer =>
    obtain ⟨hx, hid, hpending⟩ := triggerRead_eq_ok reads
    obtain ⟨x', hx', -⟩ := hfollows.execution _ _ hx
    obtain ⟨hanswer, houtcome⟩ := triggered_atomic rfl hmid hid hpending hx'
    refine ⟨_, hbegin, ⟨.inr ⟨_, commit⟩, hanswer.trans answer, ?_⟩, .start⟩
    rw [effect, houtcome, commitTrigger_db request commit]
  | status => exact absurd rfl (hrequest _)
  | @results e _ _ rows waits nodes =>
    refine ⟨_, hbegin, ⟨.inl rfl, ?_, rfl⟩, waits⟩
    cases hx : s.system.db.getExecutionById e with
    | none =>
      refine ⟨_, .refl _, ?_⟩
      simp [WorkflowExecutionResultsService.get, WorkflowExecutionStatusService.get, hx]
    | some x =>
      by_cases hst : x.status = .completed
      · obtain ⟨w, hcompleted⟩ := exists_completed hupheld hx hst
        obtain ⟨-, hsame⟩ :=
          hcompleted.preserves hmid (later_upheld hupheld waits).consistent.sound (later_preserves hupheld waits)
        exact ⟨rows, hsame ▸ nodes, rfl⟩
      · exact ⟨_, .refl _, by rw [results_of_not_completed hx hst]⟩

/-- The trigger that is accepted has the effect of one transaction at its commit, and the one that
has read the same pending execution is refused as if it had read at its own. -/
theorem responses_linearizable_raced :
    (∃ m', Atomic apiConfig sampleIntake (raced 3) m' (.triggerWorkflowExecution (.v4 1) (some firstTrigger))
        ⟨202, .trigger ⟨.v4 1, "running"⟩⟩ ∧ Later apiConfig sampleIntake m' (raced 4)) ∧
      ∃ m', Atomic apiConfig sampleIntake (raced 4) m' (.triggerWorkflowExecution (.v4 1) none)
        ⟨422, .error "workflow_execution_not_triggerable"
          "Workflow execution cannot be triggered from its current state."⟩ := by
  obtain ⟨m₁, -, hfirst, hleft⟩ := responses_linearizable (raced_reachable 1) raced_first nofun
  obtain ⟨m₂, -, hsecond, -⟩ := responses_linearizable (raced_reachable 2) raced_second nofun
  exact ⟨⟨m₁, hfirst, hleft⟩, m₂, hsecond⟩

/-! ## An accepted submission -/

/-- What becomes of a submission in `s`. -/
theorem submission_cases (cfg : Config) (s : System) (definition : WorkflowSubmissionRequest cfg.validation) :
    (definition.WellFormed ∧ ∃ db, submit cfg.validation definition.modelDump (.v4 s.draws) (.v4 (s.draws + 1)) s.now
      s.db = .ok db ∧ s.submission cfg definition = .ok (⟨.v4 (s.draws + 1), definition.name, s.now⟩, db)) ∨
    (definition.WellFormed ∧ s.submission cfg definition = .error (.raised .persistence)) ∨
    (¬ definition.WellFormed ∧ ∃ errors, errors ≠ [] ∧
      s.submission cfg definition = .error (.rejected (.invalidWorkflowDefinition errors))) := by
  rcases definition.accept_modelDump (.v4 s.draws) with ⟨hwell, haccept⟩ | ⟨hwell, errors, hne, haccept⟩
  · unfold System.submission WorkflowDefinitionService.submit submit
    simp only [haccept]
    cases hpersist : persistSubmission (definition.workflow (.v4 s.draws)) (.v4 (s.draws + 1)) s.now s.db with
    | ok db => exact .inl ⟨hwell, db, rfl, rfl⟩
    | error error =>
      obtain rfl : error = .persistence := persistSubmission_error hpersist
      exact .inr (.inl ⟨hwell, rfl⟩)
  · refine .inr (.inr ⟨hwell, errors, hne, ?_⟩)
    simp [System.submission, WorkflowDefinitionService.submit, haccept]

/-- Execution `e` runs the workflow `w`. -/
def Instantiates (db : Database) (e : Uuid) (w : Workflow) : Prop :=
  ∃ x, db.getExecutionById e = some x ∧ db.getWorkflowById x.workflowId = some w

section Instantiates

variable {w : Workflow}

theorem Instantiates.later (h : Instantiates s.system.db e w) (hs : Reachable cfg intake s)
    (hlater : Later cfg intake s t) :
    Instantiates t.system.db e w := by
  have hupheld : Upheld cfg s.system := later_upheld System.upheld_init hs
  obtain ⟨x, hx, hw⟩ := h
  obtain ⟨x', hx', hid, -⟩ := (later_follows hupheld (reachable_clocked hs) hlater).execution e x hx
  exact ⟨x', hx', hid ▸ (later_preserves hupheld hlater).workflow _ _ hw⟩

theorem Instantiates.nodeIds {db : Database} (h : Instantiates db e w) (hs : db.Sound) :
    (db.getNodeExecutionsForExecution e).map (·.nodeId) = w.nodeIds := by
  obtain ⟨x, hx, hw⟩ := h
  obtain ⟨w', hw', -, hids⟩ := hs.workflow e x hx
  cases hw.symm.trans hw'
  exact hids

theorem Instantiates.status (h : Instantiates s.system.db e w) (hs : Reachable cfg intake s)
    (hserves : Serves cfg intake (.getWorkflowExecution e) s m t response) :
    ∃ payload, response = ⟨200, .status payload⟩ ∧ payload.executionId = e ∧
      (payload.nodes.map (·.nodeId)).Perm w.nodeIds := by
  cases hserves with
  | @status _ _ _ rows waits nodes =>
    have hids := (h.later hs waits).nodeIds (later_upheld (later_upheld System.upheld_init hs) waits).consistent.sound
    obtain ⟨x, hx, -⟩ := h
    refine ⟨statusPayload x rows, ?_, (execution_some hx).2, ?_⟩
    · simp [WorkflowExecutionStatusService.get, hx, getWorkflowExecution]
    · rw [← hids, statusPayload, List.map_map]
      exact nodes.map _

theorem Instantiates.results (h : Instantiates s.system.db e w) (hs : Reachable cfg intake s)
    (hserves : Serves cfg intake (.getWorkflowExecutionResults e) s m t response) :
    ∃ payload, response = ⟨200, .results payload⟩ ∧ payload.executionId = e ∧
      ∀ results, payload.results = some results → (results.map (·.nodeId)).Perm w.nodeIds := by
  have hupheld : Upheld cfg s.system := later_upheld System.upheld_init hs
  cases hserves with
  | @results _ _ _ rows waits nodes =>
    have hids := (h.later hs waits).nodeIds (later_upheld hupheld waits).consistent.sound
    obtain ⟨x, hx, -⟩ := h
    have hexecution := (execution_some hx).2
    by_cases hst : x.status = .completed
    · obtain ⟨w', hcompleted⟩ := exists_completed hupheld hx hst
      have hrows : ∀ r ∈ rows, r.status = .completed := by
        obtain ⟨-, hsame⟩ :=
          hcompleted.preserves hupheld.consistent.sound (later_upheld hupheld waits).consistent.sound
            (later_preserves hupheld waits)
        exact fun r hr => (hcompleted.row hupheld.consistent.sound (hsame ▸ nodes.mem_iff.1 hr)).2
      refine ⟨_, by rw [WorkflowExecutionResultsService.get_of_completed hx hst hrows]; rfl, hexecution,
        fun results hresults => ?_⟩
      obtain rfl := Option.some.inj hresults
      rw [← hids, List.map_map, List.map_map]
      exact nodes.map _
    · cases hget : WorkflowExecutionResultsService.get e s.system.db rows with
      | none =>
        have hsome : (WorkflowExecutionResultsService.get e s.system.db rows).isSome = true := by
          simp only [WorkflowExecutionResultsService.get, WorkflowExecutionStatusService.get, hx]
          cases hs : x.status with
          | completed => exact absurd hs hst
          | pending | running | failed => rfl
        rw [hget] at hsome
        cases hsome
      | some answer =>
        obtain ⟨hsame, hnone, -⟩ := WorkflowExecutionResultsService.get_of_not_completed hx hst hget
        refine ⟨resultsPayload answer, rfl, by rw [resultsPayload, hsame]; exact hexecution,
          fun results hresults => ?_⟩
        rw [resultsPayload, hnone] at hresults
        cases hresults

end Instantiates

/-- A trigger is decided by the status that its commit finds. -/
theorem triggerCommit_cases {s : System} (h : Upheld cfg s) {x x' : WorkflowExecutionRecord}
    {input : Option (Dict Json)} (hx' : s.db.getExecutionById x.executionId = some x') :
    (x'.status = .pending ∧ ∃ db, triggerCommit x input (.v4 s.draws) s.now s.db = .ok db) ∨
      (x'.status ≠ .pending ∧ triggerCommit x input (.v4 s.draws) s.now s.db =
        .error (.executionNotTriggerable x.executionId x.status.value)) := by
  have hsound := h.consistent.sound
  by_cases hst : x'.status = .pending
  · have hfst : (s.db.updateExecutionIfCurrent x.executionId .pending .running (some s.now) none input).1 = true :=
      (updateExecutionIfCurrent_fst hsound).2 ⟨x', hx', hst⟩
    have hfresh :
        Fresh (.v4 s.draws) (s.db.updateExecutionIfCurrent x.executionId .pending .running (some s.now)
          none input).2 :=
      h.identifiers.fresh h.identifiers.draw_unused
    refine .inl ⟨hst, ?_⟩
    simp only [triggerCommit, hfst, if_true, addMessage_total hfresh]
    exact ⟨_, rfl⟩
  · exact .inr ⟨hst, triggerCommit_of_not_pending hsound hx' hst⟩

/-- A trigger is accepted exactly if the execution is pending when it takes effect. -/
theorem Serves.trigger_decided {trigger : Option WorkflowTriggerRequest} (hs : Reachable cfg intake s)
    (h : Serves cfg intake (.triggerWorkflowExecution e trigger) s m t response)
    (hx : m.system.db.getExecutionById e = some x) :
    (x.status = .pending ∧ response = ⟨202, .trigger ⟨e, WorkflowExecutionStatus.running.value⟩⟩) ∨
      (x.status ≠ .pending ∧ response.statusCode = 422) := by
  have hupheld : Upheld cfg s.system := later_upheld System.upheld_init hs
  cases h with
  | refused read answer =>
    by_cases hst : x.status = .pending
    · simp [triggerRead, hx, hst] at read
    · simp only [triggerRead, hx, ne_eq, hst, not_false_eq_true, if_true, Except.error.injEq] at read
      subst read
      cases answer
      exact .inr ⟨hst, rfl⟩
  | triggered reads read waits request commit answer =>
    obtain ⟨-, rfl, -⟩ := triggerRead_eq_ok reads
    have hlater := (Transition.Reachable.next _ .start trivial read).trans waits
    rcases triggerCommit_cases (later_upheld hupheld hlater) hx with ⟨hst, db, hcommit⟩ | ⟨hst, hcommit⟩
    · rw [hcommit] at answer
      cases answer
      exact .inl ⟨hst, rfl⟩
    · rw [hcommit] at answer
      cases answer
      exact .inr ⟨hst, rfl⟩

/-- What a client can do with an execution from `s` on. -/
structure Available (cfg : Config) (intake : Intake) (s : OpenSystem) (e : Uuid) (nodeIds : List String) : Prop where
  status : ∀ {s' m' t' response}, Later cfg intake s s' →
    Serves cfg intake (.getWorkflowExecution e) s' m' t' response →
    ∃ payload, response = ⟨200, .status payload⟩ ∧ payload.executionId = e ∧
      (payload.nodes.map (·.nodeId)).Perm nodeIds
  results : ∀ {s' m' t' response}, Later cfg intake s s' →
    Serves cfg intake (.getWorkflowExecutionResults e) s' m' t' response →
    ∃ payload, response = ⟨200, .results payload⟩ ∧ payload.executionId = e ∧
      ∀ results, payload.results = some results → (results.map (·.nodeId)).Perm nodeIds
  trigger : ∀ {trigger s' m' t' response}, Later cfg intake s s' →
    Serves cfg intake (.triggerWorkflowExecution e trigger) s' m' t' response →
    response.statusCode = 202 ∨ response.statusCode = 422

theorem Instantiates.available {w : Workflow} (h : Instantiates s.system.db e w) (hs : Reachable cfg intake s) :
    Available cfg intake s e w.nodeIds where
  status := fun hlater hserves => (h.later hs hlater).status (hs.trans hlater) hserves
  results := fun hlater hserves => (h.later hs hlater).results (hs.trans hlater) hserves
  trigger := fun hlater hserves => by
    obtain ⟨x, hx, -⟩ := h.later hs (hlater.trans hserves.instants.1)
    rcases hserves.trigger_decided (hs.trans hlater) hx with ⟨-, rfl⟩ | ⟨-, hrefused⟩
    · exact .inl rfl
    · exact .inr hrefused

/-- Every request that parses is answered, whatever else runs. It is rejected with its errors exactly
if it is not well formed, and nothing is stored unless it is accepted. An accepted submission is
available under a new identifier from then on, with the submitted nodes. -/
theorem submission_available (hs : Reachable cfg intake s) (definition : WorkflowSubmissionRequest cfg.validation) :
    ∃ t response, Serves cfg intake (.submitWorkflow definition) s s t response ∧
      (¬ definition.WellFormed ↔ response.statusCode = 422) ∧
      ((t = s ∧ response.statusCode = 503) ∨
        (t = s ∧ ∃ errors, errors ≠ [] ∧ response =
          ⟨422, .validationErrors "workflow_validation_failed" "Workflow definition failed validation." errors⟩) ∨
        ∃ executionId, response = ⟨201, .submission ⟨executionId, definition.name, s.system.now⟩⟩ ∧
          s.system.db.getExecutionById executionId = none ∧
          Available cfg intake t executionId (definition.nodes.map (·.id))) := by
  have hsound := (later_upheld System.upheld_init hs : Upheld cfg s.system).consistent.sound
  have hserves : ∀ {response}, submitWorkflow (s.system.submission cfg definition) = .ok response →
      Serves cfg intake (.submitWorkflow definition) s s
        ((step cfg intake s (.own (.submit definition.modelDump))).getD s) response := .submitted
  rcases submission_cases cfg s.system definition with
    ⟨hwell, db, hsubmit, hok⟩ | ⟨hwell, herror⟩ | ⟨hwell, errors, hne, herror⟩
  · have hstep : step cfg intake s (.own (.submit definition.modelDump)) = _ := step_submit hsubmit
    rw [hok, hstep, Option.getD_some] at hserves
    obtain ⟨w, haccept, -, hworkflow, hnone, rfl⟩ := submit_ok hsound hsubmit
    obtain ⟨-, haccepted⟩ | ⟨hnot, -⟩ := definition.accept_modelDump (.v4 s.system.draws)
    · cases haccept.symm.trans haccepted
      refine ⟨_, _, hserves rfl, by simp [hwell], .inr (.inr ⟨_, rfl, hnone, ?_⟩)⟩
      have hinstance :
          Instantiates (submitted (definition.workflow (.v4 s.system.draws)) (.v4 (s.system.draws + 1)) s.system.now
          s.system.db) (.v4 (s.system.draws + 1)) (definition.workflow (.v4 s.system.draws)) :=
        ⟨_, by rw [submitted_getExecutionById hnone, if_pos rfl],
          by rw [submitted_getWorkflowById hworkflow]; exact if_pos rfl⟩
      have havailable := hinstance.available (.next _ hs trivial hstep)
      rwa [show (definition.workflow (.v4 s.system.draws)).nodeIds = definition.nodes.map (·.id)
        from List.map_map] at havailable
    · exact absurd hwell hnot
  · rw [herror, step_submit_error herror, Option.getD_none] at hserves
    exact ⟨s, _, hserves rfl, by simp [hwell], .inl ⟨rfl, rfl⟩⟩
  · rw [herror, step_submit_error herror, Option.getD_none] at hserves
    exact ⟨s, _, hserves rfl, by simp [hwell], .inr (.inl ⟨rfl, errors, hne, rfl⟩)⟩

theorem submission_available_chain : ∃ t,
    Serves apiConfig sampleIntake (.submitWorkflow chainRequest) init init t ⟨201, .submission ⟨.v4 1, "sample", 0⟩⟩ ∧
      Available apiConfig sampleIntake t (.v4 1) ["fetch", "report"] := by
  obtain ⟨t, response, hserves, -, hcases⟩ :=
    submission_available (.start : Reachable apiConfig sampleIntake init) chainRequest
  have hresponse : response = ⟨201, .submission ⟨.v4 1, "sample", 0⟩⟩ := by
    cases hserves with
    | submitted answer =>
      have hcreated : submitWorkflow (init.system.submission apiConfig chainRequest) =
          .ok ⟨201, .submission ⟨.v4 1, "sample", 0⟩⟩ := by
        decide +kernel
      exact Except.ok.inj (answer.symm.trans hcreated)
  subst hresponse
  refine ⟨t, hserves, ?_⟩
  rcases hcases with ⟨-, hcode⟩ | ⟨-, _, -, hbody⟩ | ⟨executionId, hbody, -, havailable⟩
  · cases hcode
  · cases hbody
  · cases hbody
    exact havailable

/-! ## An accepted trigger -/

/-- What an accepted trigger writes. -/
theorem Serves.triggered_row {trigger : Option WorkflowTriggerRequest} (hs : Reachable cfg intake s)
    (h : Serves cfg intake (.triggerWorkflowExecution e trigger) s m t response)
    (haccepted : response.statusCode = 202) :
    ∃ x x', m.system.db.getExecutionById e = some x ∧ x.status = .pending ∧ t.system.db.getExecutionById e = some x' ∧
      x'.status = .running ∧ x'.startedAt = some m.system.now ∧ ∀ given ∈ trigger, x'.inputData = given.input := by
  have hupheld : Upheld cfg s.system := later_upheld System.upheld_init hs
  cases h with
  | @refused _ _ _ error _ read answer =>
    unfold triggerRead at read
    split at read
    · cases read
      cases answer
      cases haccepted
    · split at read
      · cases read
        cases answer
        cases haccepted
      · cases read
  | @triggered _ _ _ _ _ _ k x _ reads read waits request commit answer =>
    obtain ⟨-, rfl, -⟩ := triggerRead_eq_ok reads
    have hsound :=
      (later_upheld hupheld ((Transition.Reachable.next _ .start trivial read).trans waits)).consistent.sound
    cases hcommit : triggerCommit x (trigger.map (·.input)) (.v4 m.system.draws) m.system.now m.system.db with
    | error error =>
      rw [hcommit] at answer
      cases error <;> cases answer <;> cases haccepted
    | ok db =>
      obtain ⟨⟨x₀, hx₀, hpending⟩, hdb⟩ := triggerCommit_ok hsound hcommit
      simp only [step, System.step, System.commitTrigger, request, hcommit, Option.map_some,
        Option.some.injEq] at commit
      subst commit
      refine ⟨x₀, { x₀ with
        status := .running
        startedAt := some m.system.now
        inputData := (trigger.map (·.input)).getD x₀.inputData }, hx₀, hpending, ?_, rfl, rfl, ?_⟩
      · rw [hdb, pushOutbox_getExecutionById, getExecutionById_updateExecutionIfCurrent, hx₀, Option.map_some,
          if_pos ⟨rfl, hpending⟩]
        rfl
      · intro given hgiven
        rw [Option.mem_def.1 hgiven]
        rfl

/-- Of all triggers of an execution, however many clients race, at most one is accepted. Its input and
its instant are what the execution starts with for good, and every trigger that takes effect later is
refused, also one that has read the execution as pending before. -/
theorem trigger_accepted_once {trigger : Option WorkflowTriggerRequest} (hs : Reachable cfg intake s)
    (h : Serves cfg intake (.triggerWorkflowExecution e trigger) s m t response)
    (haccepted : response.statusCode = 202) :
    (∀ u, Later cfg intake t u → ∃ x, u.system.db.getExecutionById e = some x ∧ x.status ≠ .pending ∧
      x.startedAt = some m.system.now ∧ ∀ given ∈ trigger, x.inputData = given.input) ∧
    ∀ trigger' s' m' t' response', Reachable cfg intake s' → Later cfg intake t m' →
      Serves cfg intake (.triggerWorkflowExecution e trigger') s' m' t' response' → response'.statusCode = 422 := by
  obtain ⟨hbegin, hend⟩ := h.instants
  have ht : Reachable cfg intake t := hs.trans (hbegin.trans hend)
  obtain ⟨-, x, -, -, hx, hrunning, hstarted, hinput⟩ := h.triggered_row hs haccepted
  have hlater : ∀ u, Later cfg intake t u → ∃ x, u.system.db.getExecutionById e = some x ∧ x.status ≠ .pending ∧
      x.startedAt = some m.system.now ∧ ∀ given ∈ trigger, x.inputData = given.input := by
    intro u hu
    have hne : x.status ≠ .pending := by simp [hrunning]
    obtain ⟨x', hx', -, hextends, hmoves, hsame⟩ :=
      (later_follows (later_upheld System.upheld_init ht) (reachable_clocked ht) hu).execution e x hx
    exact ⟨x', hx', not_pending_of_moves hne hmoves, hextends.started _ hstarted,
      fun given hgiven => (hsame hne).trans (hinput given hgiven)⟩
  refine ⟨hlater, fun trigger' s' m' t' response' hs' hm' h' => ?_⟩
  obtain ⟨x', hx', hne, -⟩ := hlater m' hm'
  rcases h'.trigger_decided hs' hx' with ⟨hpending, -⟩ | ⟨-, hrefused⟩
  · exact absurd hpending hne
  · exact hrefused

/-- The execution keeps the input of the first trigger, and the second one is refused. -/
theorem trigger_accepted_once_raced :
    (∃ x, (raced 5).system.db.getExecutionById (.v4 1) = some x ∧ x.inputData = [("url", .str "a")]) ∧
      ∀ response, Serves apiConfig sampleIntake (.triggerWorkflowExecution (.v4 1) none) (raced 2) (raced 4)
        (raced 5) response → response.statusCode = 422 := by
  obtain ⟨hkept, hrefused⟩ := trigger_accepted_once (raced_reachable 1) raced_first rfl
  obtain ⟨x, hx, -, -, hinput⟩ := hkept (raced 5) (.next _ .start trivial raced_step.2.2.2)
  exact ⟨⟨x, hx, hinput firstTrigger rfl⟩, fun response h => hrefused none _ _ _ response (raced_reachable 2) .start h⟩

/-! ## Two reads of a status -/

/-- What one response says agrees with itself, although its parts are read at different instants. -/
structure Coherent (now : Time) (p : WorkflowExecutionStatusResponsePayload) : Prop where
  distinct : (p.nodes.map (·.nodeId)).Nodup
  marked : ∃ status : WorkflowExecutionStatus, p.status = serializeStatus status.value ∧ status.Marks p.span
  nodesMarked : ∀ item ∈ p.nodes, ∃ status : NodeExecutionStatus,
    item.status = serializeStatus status.value ∧ status.Marks item.span
  completed : p.status = serializeStatus WorkflowExecutionStatus.completed.value →
    ∀ item ∈ p.nodes, item.status = serializeStatus NodeExecutionStatus.completed.value
  failed : p.status = serializeStatus WorkflowExecutionStatus.failed.value →
    ∃ item ∈ p.nodes, item.status = serializeStatus NodeExecutionStatus.failed.value
  ordered : p.span.Ordered now ∧ ∀ item ∈ p.nodes, item.span.Ordered now
  begun : ∀ item ∈ p.nodes, ∀ a c, item.startedAt = some a → p.startedAt = some c → c ≤ a

/-- What a later response says continues an earlier one. -/
structure Continues (p p' : WorkflowExecutionStatusResponsePayload) : Prop where
  execution : p'.executionId = p.executionId ∧ p'.workflowId = p.workflowId ∧ p.span.Extends p'.span
  status : ∃ a b : WorkflowExecutionStatus, p.status = serializeStatus a.value ∧ p'.status = serializeStatus b.value ∧
    Relation.ReflTransGen (fun a b => b ∈ WORKFLOW_TRANSITIONS a) a b
  nodes : (p'.nodes.map (·.nodeId)).Perm (p.nodes.map (·.nodeId))
  items : ∀ item ∈ p.nodes, ∃ item' ∈ p'.nodes, item'.nodeId = item.nodeId ∧ item.span.Extends item'.span ∧
    ∃ a b : NodeExecutionStatus, item.status = serializeStatus a.value ∧ item'.status = serializeStatus b.value ∧
      Relation.ReflTransGen (fun a b => b ∈ NODE_TRANSITIONS a) a b

theorem Serves.status_read (h : Serves cfg intake (.getWorkflowExecution e) s m t response) :
    Later cfg intake s t ∧ ∃ rows : List NodeExecutionRecord, rows.Perm (t.system.db.getNodeExecutionsForExecution e) ∧
      response = getWorkflowExecution (WorkflowExecutionStatusService.get e s.system.db rows) := by
  cases h with
  | status waits nodes => exact ⟨waits, _, nodes, rfl⟩

theorem later_now (h : Later cfg intake s t) : s.system.now ≤ t.system.now := by
  induction h with
  | start => exact le_rfl
  | next _ _ _ hstep ih =>
    rcases step_cases hstep with ⟨b, hb⟩ | heq | ⟨event, -, heq⟩
    · exact ih.trans (System.step_now hb)
    · rw [heq]
      exact ih
    · rw [heq]
      exact ih

/-- The row of a node is among those of its execution. -/
theorem node_mem_rows {db : Database} {i : String} {r : NodeExecutionRecord} (h : db.node e i = some r) :
    r ∈ db.getNodeExecutionsForExecution e := by
  obtain ⟨hmem, he, -⟩ := node_some h
  simp [getNodeExecutionsForExecution, hmem, he]

/-- The execution is read in `s` and the nodes in `t`. -/
theorem coherent_read (hs : Reachable cfg intake s) (hlater : Later cfg intake s t)
    (hx : s.system.db.getExecutionById e = some x) {rows : List NodeExecutionRecord}
    (hrows : rows.Perm (t.system.db.getNodeExecutionsForExecution e)) :
    Coherent t.system.now (statusPayload x rows) := by
  have hupheld : Upheld cfg s.system := later_upheld System.upheld_init hs
  have hupheld' := later_upheld hupheld hlater
  have hsound := hupheld'.consistent.sound
  have hclocked := reachable_clocked (hs.trans hlater)
  obtain ⟨x', hx', -, hextends, -⟩ := (later_follows hupheld (reachable_clocked hs) hlater).execution e x hx
  obtain ⟨w, hw, hwell, hids⟩ := hsound.workflow e x' hx'
  have hrow : ∀ r ∈ rows, t.system.db.node e r.nodeId = some r := fun r hr => hsound.node_of_row (hrows.mem_iff.1 hr)
  refine ⟨?_, ⟨x.status, rfl, ((reachable_clocked hs).executions e x hx).2⟩, fun item hitem => ?_,
    fun hst item hitem => ?_, fun hst => ?_, ⟨?_, fun item hitem => ?_⟩, fun item hitem a c ha hc => ?_⟩
  · have hperm := hrows.map (·.nodeId)
    rw [hids] at hperm
    rw [statusPayload, List.map_map]
    exact hperm.nodup_iff.2 hwell.nodup
  · obtain ⟨r, hr, rfl⟩ := List.mem_map.1 hitem
    exact ⟨r.status, rfl, (hclocked.nodes e _ r (hrow r hr)).2⟩
  · have hcompleted : x.status = .completed := WorkflowExecutionStatus.serialized_injective hst
    obtain ⟨w', hended⟩ := exists_completed hupheld hx hcompleted
    obtain ⟨-, hsame⟩ := hended.preserves hupheld.consistent.sound hsound (later_preserves hupheld hlater)
    obtain ⟨r, hr, rfl⟩ := List.mem_map.1 hitem
    obtain ⟨-, hnode⟩ := hended.row hupheld.consistent.sound (hsame ▸ hrows.mem_iff.1 hr)
    rw [statusItem, hnode]
  · have hfailed : x.status = .failed := WorkflowExecutionStatus.serialized_injective hst
    have hkept := (later_preserves hupheld hlater).terminal.execution e x hx (.inr hfailed)
    cases hx'.symm.trans hkept
    obtain ⟨i, -, hi⟩ := (hupheld'.consistent.runs e x w hx' hw).failed_sound (by simp [Database.run, hx', hfailed])
    have hstatus : t.system.db.status e i = .failed := hi
    obtain ⟨r, hr⟩ := exists_node_of_started (show t.system.db.status e i ≠ .pending by simp [hstatus])
    refine ⟨statusItem r, List.mem_map_of_mem (hrows.mem_iff.2 (node_mem_rows hr)), ?_⟩
    rw [statusItem, (status_of_node hr).symm.trans hstatus]
  · exact ((reachable_clocked hs).executions e x hx).1.mono (later_now hlater)
  · obtain ⟨r, hr, rfl⟩ := List.mem_map.1 hitem
    exact (hclocked.nodes e _ r (hrow r hr)).1
  · obtain ⟨r, hr, rfl⟩ := List.mem_map.1 hitem
    obtain ⟨x₁, c₁, hx₁, hc₁, hle⟩ := hclocked.begun e _ r a (hrow r hr) ha
    cases hx'.symm.trans hx₁
    cases hc₁.symm.trans (hextends.started c hc)
    exact hle

theorem continues_read (hs : Reachable cfg intake s) (hlater : Later cfg intake s t) (hnext : Later cfg intake t s')
    (hlater' : Later cfg intake s' t') (hx : s.system.db.getExecutionById e = some x)
    {rows rows' : List NodeExecutionRecord} (hrows : rows.Perm (t.system.db.getNodeExecutionsForExecution e))
    (hrows' : rows'.Perm (t'.system.db.getNodeExecutionsForExecution e)) :
    ∃ x', s'.system.db.getExecutionById e = some x' ∧ Continues (statusPayload x rows) (statusPayload x' rows') := by
  have hupheld : Upheld cfg s.system := later_upheld System.upheld_init hs
  have ht := hs.trans hlater
  have hupheldt := later_upheld hupheld hlater
  have hupheldt' := later_upheld hupheldt (hnext.trans hlater')
  obtain ⟨x', hx', hid, hextends, hmoves, -⟩ :=
    (later_follows hupheld (reachable_clocked hs) (hlater.trans hnext)).execution e x hx
  have hnodes := later_follows hupheldt (reachable_clocked ht) (hnext.trans hlater')
  obtain ⟨w, hw, -⟩ := hupheld.consistent.sound.workflow e x hx
  have hinstance : Instantiates s.system.db e w := ⟨x, hx, hw⟩
  have hids := (hinstance.later hs hlater).nodeIds hupheldt.consistent.sound
  have hids' := (hinstance.later hs (hlater.trans (hnext.trans hlater'))).nodeIds hupheldt'.consistent.sound
  refine ⟨x', hx', ⟨(execution_some hx').2.trans (execution_some hx).2.symm, hid, hextends⟩,
    ⟨x.status, x'.status, rfl, rfl, hmoves⟩, ?_, fun item hitem => ?_⟩
  · have hperm := hrows.map (·.nodeId)
    have hperm' := hrows'.map (·.nodeId)
    rw [hids] at hperm
    rw [hids'] at hperm'
    simp only [statusPayload, List.map_map]
    exact hperm'.trans hperm.symm
  · obtain ⟨r, hr, rfl⟩ := List.mem_map.1 hitem
    have hnode := hupheldt.consistent.sound.node_of_row (hrows.mem_iff.1 hr)
    obtain ⟨r', hr', hspan, hedges⟩ := hnodes.node e _ r hnode
    refine ⟨statusItem r', List.mem_map_of_mem (hrows'.mem_iff.2 (node_mem_rows hr')), (node_some hr').2.2, hspan,
      r.status, r'.status, rfl, rfl, hedges⟩

/-- A status that has been reported, over two reads with anything committed in between, agrees with
itself, and whatever is reported later continues it: the execution does not vanish and keeps its
nodes, each status moves along its edges only, and no instant changes. -/
theorem status_responses_monotone (hs : Reachable cfg intake s) {p : WorkflowExecutionStatusResponsePayload}
    (h : Serves cfg intake (.getWorkflowExecution e) s m t ⟨200, .status p⟩) :
    Coherent t.system.now p ∧ ∀ s' m' t' response', Later cfg intake t s' →
      Serves cfg intake (.getWorkflowExecution e) s' m' t' response' →
      ∃ p', response' = ⟨200, .status p'⟩ ∧ Continues p p' := by
  obtain ⟨hlater, rows, hrows, hresponse⟩ := h.status_read
  cases hx : s.system.db.getExecutionById e with
  | none =>
    simp only [WorkflowExecutionStatusService.get, hx, getWorkflowExecution] at hresponse
    cases hresponse
  | some x =>
    simp only [WorkflowExecutionStatusService.get, hx, getWorkflowExecution] at hresponse
    cases hresponse
    refine ⟨coherent_read hs hlater hx hrows, fun s' m' t' response' hnext h' => ?_⟩
    obtain ⟨hlater', rows', hrows', rfl⟩ := h'.status_read
    obtain ⟨x', hx', hcontinues⟩ := continues_read hs hlater hnext hlater' hx hrows hrows'
    exact ⟨_, by simp only [WorkflowExecutionStatusService.get, hx', getWorkflowExecution], hcontinues⟩

/-- What a read says that has found the execution pending, with the nodes read after the trigger. -/
def racedStatus : WorkflowExecutionStatusResponsePayload :=
  ⟨.v4 1, .v4 0, "PENDING", 0, none, none, [⟨"fetch", "PENDING", 0, none, none⟩, ⟨"report", "PENDING", 0, none, none⟩]⟩

theorem status_responses_monotone_raced : Coherent (raced 4).system.now racedStatus ∧
    ∃ p', Serves apiConfig sampleIntake (.getWorkflowExecution (.v4 1)) (raced 5) (raced 5) (raced 5)
      ⟨200, .status p'⟩ ∧ p'.status = "RUNNING" ∧ Continues racedStatus p' := by
  obtain ⟨hread, hwait, hcommit, hlast⟩ := raced_step
  have hlater : Later apiConfig sampleIntake (raced 1) (raced 4) :=
    .next _ (.next _ (.next _ .start trivial hread) trivial hwait) trivial hcommit
  have hfirst : Serves apiConfig sampleIntake (.getWorkflowExecution (.v4 1)) (raced 1) (raced 1) (raced 4)
      ⟨200, .status racedStatus⟩ := by
    have hresponse : getWorkflowExecution (WorkflowExecutionStatusService.get (.v4 1) (raced 1).system.db
        ((raced 4).system.db.getNodeExecutionsForExecution (.v4 1))) = ⟨200, .status racedStatus⟩ := by
      decide +kernel
    exact hresponse ▸ .status hlater (.refl _)
  have hsecond : Serves apiConfig sampleIntake (.getWorkflowExecution (.v4 1)) (raced 5) (raced 5) (raced 5) _ :=
    .status .start (.refl _)
  obtain ⟨hcoherent, hcontinues⟩ := status_responses_monotone (raced_reachable 1) hfirst
  obtain ⟨p', hresponse, hp'⟩ := hcontinues _ _ _ _ (.next _ .start trivial hlast) hsecond
  rw [hresponse] at hsecond
  refine ⟨hcoherent, p', hsecond, ?_, hp'⟩
  have hrunning : getWorkflowExecution (WorkflowExecutionStatusService.get (.v4 1) (raced 5).system.db
      ((raced 5).system.db.getNodeExecutionsForExecution (.v4 1))) =
      ⟨200, .status { racedStatus with status := "RUNNING", startedAt := some 0 }⟩ := by
    decide +kernel
  cases hresponse.symm.trans hrunning
  rfl

end OpenSystem

end WorkflowEngine
