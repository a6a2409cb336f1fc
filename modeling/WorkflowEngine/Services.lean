import WorkflowEngine.Persistence
import WorkflowEngine.Templates

/-!
# Application services

Each service call is the body of one database transaction: it returns its result with the
database to commit, or the exception on which the unit of work rolls back. Values drawn from
`uuid4()` and `datetime.now()` are arguments. A trigger request and a dispatch are cut where
the source reads outside the transaction that writes, so that other transactions can commit
in between.
-/
namespace WorkflowEngine

/-! ## Submission and trigger -/

inductive SubmitError where
  | rejected (error : AcceptError)
  | raised (error : PyError)
  deriving DecidableEq, Repr

/-- The pending row `submit` writes for one node. -/
def pendingNodeExecution (executionId : Uuid) (now : Time) (n : WorkflowNode) : NodeExecutionRecord :=
  ⟨executionId, n.id, .pending, .obj [], none, none, now, none, none⟩

/-- The pending execution `submit` writes. -/
def pendingExecution (executionId workflowId : Uuid) (now : Time) : WorkflowExecutionRecord :=
  ⟨executionId, workflowId, .pending, [], now, none, none⟩

def persistSubmission (w : Workflow) (executionId : Uuid) (now : Time) (db : Database) :
    Except PyError Database := do
  let db ← db.createWorkflow w
  let db ← db.createExecution (pendingExecution executionId w.workflowId now)
  return w.nodes.foldl (fun db n => db.upsertNodeExecution (pendingNodeExecution executionId now n)) db

def submit (env : ValidationEnv) (definition : Dict Json) (workflowId executionId : Uuid) (now : Time)
    (db : Database) : Except SubmitError Database :=
  match accept env workflowId definition with
  | .error e => .error (.rejected e)
  | .ok w =>
    match persistSubmission w executionId now db with
    | .error e => .error (.raised e)
    | .ok db => .ok db

/-- The unlocked read at the start of `trigger`. -/
def triggerRead (executionId : Uuid) (db : Database) : Except PyError WorkflowExecutionRecord :=
  match db.getExecutionById executionId with
  | none => .error (.executionNotFound executionId)
  | some x =>
    if x.status ≠ .pending then .error (.executionNotTriggerable executionId x.status.value) else .ok x

/-- The rest of `trigger`: the conditional update decides, whatever the read had seen. -/
def triggerCommit (x : WorkflowExecutionRecord) (inputData : Option (Dict Json)) (messageId : Uuid)
    (now : Time) (db : Database) : Except PyError Database :=
  let (transitioned, db) := db.updateExecutionIfCurrent x.executionId .pending .running (some now) none inputData
  if transitioned then
    db.addMessage messageId .executionTriggered .events x.executionId (.execution x.executionId) now
  else .error (.executionNotTriggerable x.executionId x.status.value)

/-! ## Readiness and dispatch -/

/-- The dict of statuses by node that the services build from the rows of one execution. -/
def statusMap (rows : List NodeExecutionRecord) : StatusMap :=
  fun i => (rows.find? fun r => decide (r.nodeId = i)).map (·.status)

def workflowMissing (workflowId : Uuid) : PyError :=
  .lookupError ("Workflow '" ++ workflowId.str ++ "' was not found.")

/-- `WorkflowReadinessService.evaluate_in_transaction` for an execution already read. -/
def evaluateReadinessFor (executionId : Uuid) (x : WorkflowExecutionRecord) (db : Database) :
    Except PyError (List String) :=
  match db.getWorkflowById x.workflowId with
  | none => .error (workflowMissing x.workflowId)
  | some w => .ok (evaluateReadyNodeIds w (statusMap (db.getNodeExecutionsForExecution executionId)))

def evaluateReadiness (executionId : Uuid) (db : Database) : Except PyError (List String) :=
  match db.getExecutionById executionId with
  | none => .error (.executionNotFound executionId)
  | some x => evaluateReadinessFor executionId x db

/-- The read transaction of `dispatch_ready`: the execution and the nodes to dispatch. -/
def readyNodes (executionId : Uuid) (readyNodeIds : List String) (db : Database) :
    Except PyError (WorkflowExecutionRecord × List WorkflowNode) :=
  match db.getExecutionById executionId with
  | none => .error (.executionNotFound executionId)
  | some x =>
    match db.getWorkflowById x.workflowId with
    | none => .error (workflowMissing x.workflowId)
    | some w => .ok (x, w.nodes.filter fun n => decide (n.id ∈ readyNodeIds))

inductive DispatchOutcome where
  | dispatched | alreadyStarted | failedToPublish
  deriving DecidableEq, Repr

structure DispatchResult where
  executionId : Uuid
  nodeId : String
  taskId : Uuid
  outcome : DispatchOutcome
  reason : Option String
  deriving DecidableEq, Repr

/-- The outputs of the declared dependencies that are completed. -/
def completedDependencyOutputs (executionId : Uuid) (node : WorkflowNode) (rows : List NodeExecutionRecord) :
    Dict Json :=
  (rows.filter fun r => decide (r.workflowExecutionId = executionId ∧ r.nodeId ∈ node.dependencies ∧
    r.status = .completed)).map fun r => (r.nodeId, r.outputData)

/-- The part of `dispatch` after the node was claimed: the task, its first attempt, its message. -/
def registerTask (x : WorkflowExecutionRecord) (node : WorkflowNode) (resolvedInput : Dict Json)
    (attemptId : Uuid) (now : Time) (db : Database) : Except PyError Database := do
  let taskId := createTaskId x.executionId node.id
  let (attemptId, db) ← db.registerInitialTask taskId x.executionId node.id node.handler node.config
    resolvedInput attemptId now
  db.addTask taskId x.executionId
    (.task ⟨taskId, attemptId, 1, x.executionId, node.id, node.handler, node.config, resolvedInput⟩) now

/-- `RedisNodeTaskDispatcher.dispatch`; `x` is the execution as `dispatch_ready` read it. -/
def dispatch (strFloat : Rat → String) (x : WorkflowExecutionRecord) (node : WorkflowNode) (attemptId : Uuid)
    (now : Time) (db : Database) : Except PyError (DispatchResult × Database) :=
  let taskId := createTaskId x.executionId node.id
  if (db.getExecutionById x.executionId).isNone then .error (.executionNotFound x.executionId)
  else
    let rows := db.getNodeExecutionsForExecution x.executionId
    if node.dependencies.any fun d => decide (statusMap rows d = some .failed) then
      let (_, db) := db.failPendingNodes x.executionId [node.id] "A required dependency failed." now
      .ok (⟨x.executionId, node.id, taskId, .alreadyStarted,
        some "A required dependency failed; node was marked failed."⟩, db)
    else do
      let resolvedInput ← NodeInputResolver.resolve strFloat node x.inputData
        (completedDependencyOutputs x.executionId node rows)
      let (claimed, db) := db.claimPendingNodes x.executionId [node.id] now
      if claimed.isEmpty then
        return (⟨x.executionId, node.id, taskId, .alreadyStarted,
          some "Node was already dispatched or is no longer eligible to dispatch."⟩, db)
      let db ← registerTask x node resolvedInput attemptId now db
      return (⟨x.executionId, node.id, taskId, .dispatched, none⟩, db)

/-! ## Finalization -/

/-- `uuid5(correlation_id, f"workflow:{execution_id}:{status}")`. -/
def workflowEventId (correlationId executionId : Uuid) (status : String) : Uuid :=
  .v5 correlationId "workflow:" executionId status

/-- The terminal transition of a running execution, with its lifecycle event if it was taken. -/
def finalizeAs (executionId correlationId : Uuid) (new : WorkflowExecutionStatus) (messageType : MessageType)
    (now : Time) (db : Database) : Except PyError Database :=
  let (updated, db) := db.updateExecutionIfCurrent executionId .running new none (some now) none
  if updated then
    db.addMessage (workflowEventId correlationId executionId new.value) messageType .events executionId
      (.executionStatus executionId new.value) now
  else .ok db

/-- `WorkflowFinalizationService.evaluate_in_transaction`. -/
def evaluateFinalization (executionId : Uuid) (x : WorkflowExecutionRecord) (correlationId : Uuid) (now : Time)
    (db : Database) : Except PyError Database :=
  let rows := db.getNodeExecutionsForExecution executionId
  if rows.any fun r => decide (r.status = .failed) then
    finalizeAs executionId correlationId .failed .executionFailed now db
  else
    match db.getWorkflowById x.workflowId with
    | none => .error (workflowMissing x.workflowId)
    | some w =>
      if w.nodes.all fun n => decide (statusMap rows n.id = some .completed) then
        finalizeAs executionId correlationId .completed .executionCompleted now db
      else .ok db

/-! ## Completion -/

/-- The largest finite double. -/
def maxDouble : Rat := (2 ^ 53 - 1) * 2 ^ 971

/-- From here on integers round to no finite double. -/
def intOverflow : Rat := maxDouble + 2 ^ 970

/-- `math.pow` of a double and an integer, over exact rationals. -/
def pow (base : Rat) (exponent : Nat) : Except PyError Rat :=
  if intOverflow ≤ exponent then .error (.overflowError "int too large to convert to float")
  else if maxDouble < base ^ exponent then .error (.overflowError "math range error")
  else .ok (base ^ exponent)

/-- A policy that passes `__post_init__`. -/
structure RetryPolicy where
  maxAttempts : Nat
  initialDelaySeconds : Rat
  backoffMultiplier : Rat
  maxDelaySeconds : Option Rat
  maxAttempts_pos : 1 ≤ maxAttempts
  initialDelay_nonneg : 0 ≤ initialDelaySeconds
  multiplier_ge_one : 1 ≤ backoffMultiplier
  maxDelay_nonneg : ∀ d ∈ maxDelaySeconds, 0 ≤ d

namespace RetryPolicy

def delayFor (policy : RetryPolicy) (attemptNumber : Int) : Except PyError Rat :=
  if attemptNumber < 1 then .error (.valueError "attempt_number must be at least one.")
  else do
    let power ← pow policy.backoffMultiplier (attemptNumber - 1).toNat
    let delay := policy.initialDelaySeconds * power
    return match policy.maxDelaySeconds with
    | none => delay
    | some cap => min delay cap

end RetryPolicy

/-- Rounding to the nearest integer, ties to even. -/
def roundHalfEven (q : Rat) : Int :=
  let f := q.floor
  let r := q - f
  if r < 1 / 2 then f else if 1 / 2 < r then f + 1 else if f % 2 = 0 then f else f + 1

/-- `timedelta(seconds=..)` in microseconds: at most 999999999 days. -/
def timedelta (seconds : Rat) : Except PyError Int :=
  let micros := roundHalfEven (seconds * 1000000)
  if micros.natAbs ≥ 1000000000 * 86400 * 1000000 then .error (.overflowError "days out of range")
  else .ok micros

/-- `datetime.max`. -/
def datetimeMax : Time := 253402300799999999

/-- `datetime.now(UTC) + timedelta(seconds=delay_for(attempt_number))`. -/
def retryAt (policy : RetryPolicy) (now : Time) (attemptNumber : Int) : Except PyError Time := do
  let delay ← policy.delayFor attemptNumber
  let delta ← timedelta delay
  if datetimeMax < now + delta then .error (.overflowError "date value out of range") else return now + delta

inductive TaskCompletionOutcome where
  | processed | duplicate | retryScheduled
  deriving DecidableEq, Repr

structure TaskCompletionDecision where
  eventId : Uuid
  executionId : Uuid
  nodeId : String
  outcome : TaskCompletionOutcome
  readyNodeIds : List String
  retryAttemptId : Option Uuid
  retryAttemptNumber : Option Nat
  deriving DecidableEq, Repr

def duplicateDecision (event : TaskCompletionEvent) : TaskCompletionDecision :=
  ⟨event.eventId, event.executionId, event.nodeId, .duplicate, [], none, none⟩

def retryDecision (event : TaskCompletionEvent) (attemptId : Uuid) (number : Nat) : TaskCompletionDecision :=
  ⟨event.eventId, event.executionId, event.nodeId, .retryScheduled, [], some attemptId, some number⟩

def processedDecision (event : TaskCompletionEvent) (ready : List String) : TaskCompletionDecision :=
  ⟨event.eventId, event.executionId, event.nodeId, .processed, ready, none, none⟩

/-- The retry repository's part of `process`: `some` decision is an early return. -/
def consultRetries (policy : RetryPolicy) (event : TaskCompletionEvent) (existing : NodeExecutionRecord)
    (nextAttemptId : Uuid) (now : Time) (db : Database) :
    Except PyError (Option TaskCompletionDecision × Database) :=
  match event.status with
  | .completed => do
    let (recorded, db) ← db.recordSuccess event.taskId event.attemptId event.eventId now
    return (if !recorded && decide (existing.status ≠ .running) then some (duplicateDecision event) else none, db)
  | .failed =>
    match event.errorMessage, event.errorType with
    | some errorMessage, some errorType => do
      let at' ← retryAt policy now event.attemptNumber
      let (decision, db) ← db.recordFailure event.taskId event.attemptId event.eventId errorMessage errorType now
        policy.maxAttempts at' nextAttemptId
      return match decision with
      | .duplicate => (some (duplicateDecision event), db)
      | .retryScheduled attemptId number => (some (retryDecision event attemptId number), db)
      | .exhausted => (none, db)
    | _, _ => .error (.valueError "Failed completion events require error information.")

/-- `uuid5(event_id, f"node:{execution_id}:{failed_node_id}:failed")`. -/
def nodeFailedEventId (event : TaskCompletionEvent) (nodeId : String) : Uuid :=
  .v5 event.eventId "node:" event.executionId (nodeId ++ ":failed")

def dependencyReason (nodeId : String) : String := "Dependency '" ++ nodeId ++ "' failed."

/-- One lifecycle event for each node the propagation has failed. -/
def announceFailures (event : TaskCompletionEvent) (now : Time) :
    List String → Database → Except PyError Database
  | [], db => .ok db
  | i :: rest, db => do
    let db ← db.addMessage (nodeFailedEventId event i) .nodeFailed .events event.executionId
      (.dependencyFailed event.executionId i (dependencyReason event.nodeId)) now
    announceFailures event now rest db

/-- Failure propagation, from the statuses read before the node's own update. -/
def propagateFailure (event : TaskCompletionEvent) (x : WorkflowExecutionRecord)
    (rows : List NodeExecutionRecord) (now : Time) (db : Database) : Except PyError Database :=
  match db.getWorkflowById x.workflowId with
  | none => .error (workflowMissing x.workflowId)
  | some w => do
    let statuses : StatusMap := fun i => if i = event.nodeId then some .failed else statusMap rows i
    let blocked ← evaluateFailedDependencyNodeIds w statuses
    let (failed, db) := db.failPendingNodes event.executionId blocked (dependencyReason event.nodeId) now
    announceFailures event now failed db

def TaskCompletionStatus.messageType : TaskCompletionStatus → MessageType
  | .completed => .nodeCompleted
  | .failed => .nodeFailed

/-- The rest of `process` once the node's own row has been updated. -/
def afterUpdate (event : TaskCompletionEvent) (x : WorkflowExecutionRecord) (rows : List NodeExecutionRecord)
    (now : Time) (db : Database) : Except PyError (TaskCompletionDecision × Database) := do
  let db ← match event.status with
    | .failed => propagateFailure event x rows now db
    | .completed => .ok db
  let db ← db.addMessage event.eventId event.status.messageType .events event.executionId (.node event) now
  let ready ← match event.status with
    | .completed => evaluateReadinessFor event.executionId x db
    | .failed => .ok []
  let db ← evaluateFinalization event.executionId x event.eventId now db
  return (processedDecision event ready, db)

def cannotComplete (existing : NodeExecutionRecord) : PyError :=
  .valueError ("Node execution '" ++ existing.nodeId ++ "' cannot complete from status '" ++
    existing.status.value ++ "'.")

/-- The update of the node's own row and what follows from it. -/
def completeNode (event : TaskCompletionEvent) (x : WorkflowExecutionRecord) (rows : List NodeExecutionRecord)
    (existing : NodeExecutionRecord) (now : Time) (db : Database) :
    Except PyError (TaskCompletionDecision × Database) :=
  let target : NodeExecutionStatus := match event.status with
    | .completed => .completed
    | .failed => .failed
  let output := match event.status with
    | .completed => event.outputData
    | .failed => .null
  let errorMessage := match event.status with
    | .completed => none
    | .failed => event.errorMessage
  let errorType := match event.status with
    | .completed => none
    | .failed => event.errorType
  let (updated, db) := db.updateNodeIfCurrent event.executionId event.nodeId .running target (some output)
    errorMessage errorType none (some now)
  if updated then afterUpdate event x rows now db
  else if existing.status = .completed ∨ existing.status = .failed then .ok (duplicateDecision event, db)
  else .error (cannotComplete existing)

def nodeMissing (event : TaskCompletionEvent) : PyError :=
  .lookupError ("Node execution '" ++ event.nodeId ++ "' was not found for execution '" ++
    event.executionId.str ++ "'.")

/-- `TaskCompletionService.process`. -/
def process (policy : RetryPolicy) (event : TaskCompletionEvent) (nextAttemptId : Uuid) (now : Time)
    (db : Database) : Except PyError (TaskCompletionDecision × Database) :=
  if event.taskId ≠ createTaskId event.executionId event.nodeId then
    .error (.valueError "Task completion event task_id does not match its execution and node.")
  else
    match db.getExecutionById event.executionId with
    | none => .error (.executionNotFound event.executionId)
    | some x =>
      let rows := db.getNodeExecutionsForExecution event.executionId
      match rows.find? fun r => decide (r.nodeId = event.nodeId) with
      | none => .error (nodeMissing event)
      | some existing => do
        let (early, db) ← consultRetries policy event existing nextAttemptId now db
        match early with
        | some decision => return (decision, db)
        | none => completeNode event x rows existing now db

end WorkflowEngine
