import WorkflowEngine.Lib.Table
import WorkflowEngine.Workflow

/-!
# Persisted rows and repositories

One record per table and one function per repository method. A read returns rows, a write
returns the new database, and a statement that violates a primary key or a unique
constraint raises, which makes the unit of work roll the whole transaction back.
-/
namespace WorkflowEngine

inductive TaskCompletionStatus where
  | completed | failed
  deriving DecidableEq, Repr

def TaskCompletionStatus.value : TaskCompletionStatus → String
  | .completed => "completed"
  | .failed => "failed"

structure TaskCompletionEvent where
  eventId : Uuid
  taskId : Uuid
  attemptId : Uuid
  attemptNumber : Int
  executionId : Uuid
  nodeId : String
  status : TaskCompletionStatus
  outputData : Json
  errorMessage : Option String
  errorType : Option String
  deriving DecidableEq, Repr

structure NodeTaskMessage where
  taskId : Uuid
  attemptId : Uuid
  attemptNumber : Nat
  executionId : Uuid
  nodeId : String
  handler : String
  handlerConfig : Dict Json
  resolvedInput : Dict Json
  deriving DecidableEq, Repr

structure WorkflowExecutionRecord where
  executionId : Uuid
  workflowId : Uuid
  status : WorkflowExecutionStatus
  inputData : Dict Json
  createdAt : Time
  startedAt : Option Time
  completedAt : Option Time
  deriving DecidableEq, Repr

structure NodeExecutionRecord where
  workflowExecutionId : Uuid
  nodeId : String
  status : NodeExecutionStatus
  outputData : Json
  errorMessage : Option String
  errorType : Option String
  createdAt : Time
  startedAt : Option Time
  completedAt : Option Time
  deriving DecidableEq, Repr

inductive LogicalTaskStatus where
  | running | retryScheduled | completed | failed
  deriving DecidableEq, Repr

structure LogicalTaskRecord where
  taskId : Uuid
  executionId : Uuid
  nodeId : String
  handler : String
  handlerConfig : Dict Json
  resolvedInput : Dict Json
  status : LogicalTaskStatus
  finalErrorMessage : Option String
  finalErrorType : Option String
  deriving DecidableEq, Repr

/-- Both vocabularies of the status column: the orchestrator writes the first, second, third
and last two, a worker writes `claimed`, `resultRecorded` and `completed`. -/
inductive AttemptStatus where
  | running | scheduled | queued | claimed | resultRecorded | completed | failed
  deriving DecidableEq, Repr

structure TaskAttemptRecord where
  attemptId : Uuid
  taskId : Uuid
  attemptNumber : Nat
  status : AttemptStatus
  failureEventId : Option Uuid
  completionEventId : Option Uuid
  errorMessage : Option String
  errorType : Option String
  startedAt : Option Time
  failedAt : Option Time
  scheduledAt : Option Time
  completedAt : Option Time
  claimedBy : Option String
  claimedAt : Option Time
  claimExpiresAt : Option Time
  resultData : Json
  completionPublishedAt : Option Time
  deriving DecidableEq, Repr

inductive PublicationStatus where
  | pending | published
  deriving DecidableEq, Repr

structure TaskRetryDispatchRecord where
  attemptId : Uuid
  availableAt : Time
  status : PublicationStatus
  publishedAt : Option Time
  deriving DecidableEq, Repr

inductive StreamName where
  | tasks | events | taskCompletions | taskDeadLetter
  deriving DecidableEq, Repr

inductive MessageType where
  | executionTriggered | task | nodeCompleted | nodeFailed | executionCompleted | executionFailed
  deriving DecidableEq, Repr

def MessageType.text : MessageType → String
  | .executionTriggered => "workflow.execution.triggered"
  | .task => "workflow.task"
  | .nodeCompleted => "workflow.node.completed"
  | .nodeFailed => "workflow.node.failed"
  | .executionCompleted => "workflow.execution.completed"
  | .executionFailed => "workflow.execution.failed"

/-- The payload dicts the services write, by the keys they hold. -/
inductive OutboxPayload where
  | execution (executionId : Uuid)
  | executionStatus (executionId : Uuid) (status : String)
  | task (message : NodeTaskMessage)
  | node (event : TaskCompletionEvent)
  | dependencyFailed (executionId : Uuid) (nodeId reason : String)
  deriving DecidableEq, Repr

structure OutboxEventRecord where
  messageId : Uuid
  messageType : MessageType
  targetStream : StreamName
  aggregateId : Uuid
  payload : OutboxPayload
  status : PublicationStatus
  publishAttempts : Nat
  lastError : Option String
  createdAt : Time
  publishedAt : Option Time
  deriving DecidableEq, Repr

/-- The tables. `outboxInserted` is no table: it remembers every row ever added to the outbox,
since published rows are deleted after their retention period. -/
structure Database where
  workflows : List Workflow
  workflowExecutions : List WorkflowExecutionRecord
  nodeExecutions : List NodeExecutionRecord
  logicalTasks : List LogicalTaskRecord
  taskAttempts : List TaskAttemptRecord
  taskRetryDispatches : List TaskRetryDispatchRecord
  outboxEvents : List OutboxEventRecord
  outboxInserted : List OutboxEventRecord
  deriving DecidableEq, Repr

def TASK_ID_NAMESPACE : Uuid := .const "1f3cd7dd-05c9-48e9-9ad3-95520ee7ae8d"

/-- `uuid5(TASK_ID_NAMESPACE, f"{execution_id}:{node_id}")`. -/
def createTaskId (executionId : Uuid) (nodeId : String) : Uuid :=
  .v5 TASK_ID_NAMESPACE "" executionId nodeId

theorem createTaskId_injective {e e' : Uuid} {n n' : String} (h : createTaskId e n = createTaskId e' n') :
    e = e' ∧ n = n' := by
  simpa [createTaskId] using h

namespace Database

def empty : Database := ⟨[], [], [], [], [], [], [], []⟩

/-! ## Workflows and executions -/

def getWorkflowById (db : Database) (workflowId : Uuid) : Option Workflow :=
  Table.lookup (·.workflowId) workflowId db.workflows

def createWorkflow (w : Workflow) (db : Database) : Except PyError Database :=
  if (db.getWorkflowById w.workflowId).isSome then .error .persistence
  else .ok { db with workflows := db.workflows ++ [w] }

def getExecutionById (db : Database) (executionId : Uuid) : Option WorkflowExecutionRecord :=
  Table.lookup (·.executionId) executionId db.workflowExecutions

def createExecution (x : WorkflowExecutionRecord) (db : Database) : Except PyError Database :=
  if (db.getExecutionById x.executionId).isSome then .error .persistence
  else .ok { db with workflowExecutions := db.workflowExecutions ++ [x] }

/-- The execution's conditional update; a missing argument leaves its column as it is. -/
def updateExecutionIfCurrent (executionId : Uuid) (expected new : WorkflowExecutionStatus)
    (startedAt completedAt : Option Time) (inputData : Option (Dict Json)) (db : Database) : Bool × Database :=
  let selected := fun r : WorkflowExecutionRecord => decide (r.executionId = executionId ∧ r.status = expected)
  (db.workflowExecutions.any selected,
    { db with workflowExecutions := Table.updateWhere selected (fun r =>
        { r with
          status := new
          startedAt := startedAt.or r.startedAt
          completedAt := completedAt.or r.completedAt
          inputData := inputData.getD r.inputData }) db.workflowExecutions })

/-! ## Node executions -/

def getNodeExecutionsForExecution (db : Database) (executionId : Uuid) : List NodeExecutionRecord :=
  db.nodeExecutions.filter fun r => decide (r.workflowExecutionId = executionId)

/-- `insert .. on conflict do update`: the creation time of an existing row is kept. -/
def upsertNodeExecution (n : NodeExecutionRecord) (db : Database) : Database :=
  let selected := fun r : NodeExecutionRecord =>
    decide (r.workflowExecutionId = n.workflowExecutionId ∧ r.nodeId = n.nodeId)
  if db.nodeExecutions.any selected then
    { db with nodeExecutions :=
        Table.updateWhere selected (fun r => { n with createdAt := r.createdAt }) db.nodeExecutions }
  else { db with nodeExecutions := db.nodeExecutions ++ [n] }

/-- The node's conditional update from one status; `outputData` is `none` when not provided. -/
def updateNodeIfCurrent (executionId : Uuid) (nodeId : String) (expected new : NodeExecutionStatus)
    (outputData : Option Json) (errorMessage errorType : Option String) (startedAt completedAt : Option Time)
    (db : Database) : Bool × Database :=
  let selected := fun r : NodeExecutionRecord =>
    decide (r.workflowExecutionId = executionId ∧ r.nodeId = nodeId ∧ r.status = expected)
  (db.nodeExecutions.any selected,
    { db with nodeExecutions := Table.updateWhere selected (fun r =>
        { r with
          status := new
          outputData := outputData.getD r.outputData
          errorMessage := errorMessage.or r.errorMessage
          errorType := errorType.or r.errorType
          startedAt := startedAt.or r.startedAt
          completedAt := completedAt.or r.completedAt }) db.nodeExecutions })

/-- The rows `claim_pending_nodes` and `fail_pending_nodes` select. -/
def pendingNode (executionId : Uuid) (nodeIds : List String) (r : NodeExecutionRecord) : Bool :=
  decide (r.workflowExecutionId = executionId ∧ r.nodeId ∈ nodeIds ∧ r.status = .pending)

def claimPendingNodes (executionId : Uuid) (nodeIds : List String) (now : Time) (db : Database) :
    List String × Database :=
  if nodeIds.isEmpty then ([], db)
  else
    (Table.returning (pendingNode executionId nodeIds) (·.nodeId) db.nodeExecutions,
      { db with nodeExecutions := (Table.updateWhere (pendingNode executionId nodeIds)
          (fun r => { r with status := .running, startedAt := some now }) db.nodeExecutions) })

def failPendingNodes (executionId : Uuid) (nodeIds : List String) (reason : String) (completedAt : Time)
    (db : Database) : List String × Database :=
  if nodeIds.isEmpty then ([], db)
  else
    (Table.returning (pendingNode executionId nodeIds) (·.nodeId) db.nodeExecutions,
      { db with nodeExecutions := Table.updateWhere (pendingNode executionId nodeIds) (fun r =>
          { r with
            status := .failed
            errorMessage := some reason
            errorType := some "FailedDependency"
            completedAt := some completedAt }) db.nodeExecutions })

/-! ## Outbox -/

def addMessage (messageId : Uuid) (messageType : MessageType) (targetStream : StreamName) (aggregateId : Uuid)
    (payload : OutboxPayload) (now : Time) (db : Database) : Except PyError Database :=
  let row : OutboxEventRecord :=
    ⟨messageId, messageType, targetStream, aggregateId, payload, .pending, 0, none, now, none⟩
  if db.outboxEvents.any fun r => decide (r.messageId = messageId) then .error .persistence
  else .ok { db with outboxEvents := db.outboxEvents ++ [row], outboxInserted := db.outboxInserted ++ [row] }

def addTask (messageId aggregateId : Uuid) (payload : OutboxPayload) (now : Time) (db : Database) :
    Except PyError Database :=
  addMessage messageId .task .tasks aggregateId payload now db

/-! ## Logical tasks, attempts and retries -/

def getLogicalTask (db : Database) (taskId : Uuid) : Option LogicalTaskRecord :=
  Table.lookup (·.taskId) taskId db.logicalTasks

def getAttempt (db : Database) (attemptId : Uuid) : Option TaskAttemptRecord :=
  Table.lookup (·.attemptId) attemptId db.taskAttempts

/-- An update of one attempt by its primary key. -/
def updateAttempt (attemptId : Uuid) (f : TaskAttemptRecord → TaskAttemptRecord) (db : Database) : Database :=
  { db with taskAttempts := Table.updateWhere (fun r => decide (r.attemptId = attemptId)) f db.taskAttempts }

/-- An update of one logical task by its primary key. -/
def updateLogicalTask (taskId : Uuid) (f : LogicalTaskRecord → LogicalTaskRecord) (db : Database) : Database :=
  { db with logicalTasks := Table.updateWhere (fun r => decide (r.taskId = taskId)) f db.logicalTasks }

def insertAttempt (row : TaskAttemptRecord) (db : Database) : Except PyError Database :=
  if db.taskAttempts.any fun r => decide (r.attemptId = row.attemptId ∨
      (r.taskId = row.taskId ∧ r.attemptNumber = row.attemptNumber)) then .error .persistence
  else .ok { db with taskAttempts := db.taskAttempts ++ [row] }

def insertRetryDispatch (row : TaskRetryDispatchRecord) (db : Database) : Except PyError Database :=
  if db.taskRetryDispatches.any fun r => decide (r.attemptId = row.attemptId) then .error .persistence
  else .ok { db with taskRetryDispatches := db.taskRetryDispatches ++ [row] }

/-- `insert .. on conflict (task_id) do nothing`; `(execution_id, node_id)` is unique too. -/
def insertLogicalTask (row : LogicalTaskRecord) (db : Database) : Except PyError Database :=
  if (db.getLogicalTask row.taskId).isSome then .ok db
  else if db.logicalTasks.any fun r => decide (r.executionId = row.executionId ∧ r.nodeId = row.nodeId) then
    .error .persistence
  else .ok { db with logicalTasks := db.logicalTasks ++ [row] }

def attemptMismatch (attemptId taskId : Uuid) : PyError :=
  .valueError ("Attempt '" ++ attemptId.str ++ "' does not belong to task '" ++ taskId.str ++ "'.")

def recordSuccess (taskId attemptId completionEventId : Uuid) (completedAt : Time) (db : Database) :
    Except PyError (Bool × Database) :=
  match db.getLogicalTask taskId with
  | none => .ok (true, db)
  | some _ =>
    match db.getAttempt attemptId with
    | none => .error (attemptMismatch attemptId taskId)
    | some attempt =>
      if attempt.taskId ≠ taskId then .error (attemptMismatch attemptId taskId)
      else if attempt.completionEventId = some completionEventId then .ok (false, db)
      else if (attempt.status = .completed ∨ attempt.status = .failed) ∧ attempt.completionEventId.isSome then
        .ok (false, db)
      else
        let db := db.updateAttempt attemptId fun r =>
          { r with
            status := .completed
            completionEventId := some completionEventId
            completedAt := some completedAt }
        .ok (true, db.updateLogicalTask taskId fun r => { r with status := .completed })

inductive RetryDecision where
  | retryScheduled (nextAttemptId : Uuid) (nextAttemptNumber : Nat)
  | exhausted
  | duplicate
  deriving DecidableEq, Repr

/-- The row of the next attempt, waiting for its publication. -/
def scheduledAttempt (attemptId taskId : Uuid) (number : Nat) (retryAt : Time) : TaskAttemptRecord :=
  ⟨attemptId, taskId, number, .scheduled, none, none, none, none, none, none, some retryAt, none, none,
    none, none, .null, none⟩

/-- The failed attempt is closed and, below the limit, its successor is scheduled. -/
def closeFailedAttempt (attempt : TaskAttemptRecord) (failureEventId : Uuid) (errorMessage errorType : String)
    (failedAt : Time) (maxAttempts : Nat) (retryAt : Time) (nextAttemptId : Uuid) (db : Database) :
    Except PyError (RetryDecision × Database) := do
  if db.taskAttempts.any fun r => decide (r.attemptId ≠ attempt.attemptId ∧
      r.failureEventId = some failureEventId) then throw .persistence
  let db := db.updateAttempt attempt.attemptId fun r =>
    { r with
      status := .failed
      failureEventId := some failureEventId
      errorMessage := some errorMessage
      errorType := some errorType
      failedAt := some failedAt }
  if maxAttempts ≤ attempt.attemptNumber then
    return (.exhausted, db.updateLogicalTask attempt.taskId fun r =>
      { r with status := .failed, finalErrorMessage := some errorMessage, finalErrorType := some errorType })
  let db ← db.insertAttempt
    (scheduledAttempt nextAttemptId attempt.taskId (attempt.attemptNumber + 1) retryAt)
  let db ← db.insertRetryDispatch ⟨nextAttemptId, retryAt, .pending, none⟩
  return (.retryScheduled nextAttemptId (attempt.attemptNumber + 1),
    db.updateLogicalTask attempt.taskId fun r => { r with status := .retryScheduled })

def recordFailure (taskId attemptId failureEventId : Uuid) (errorMessage errorType : String) (failedAt : Time)
    (maxAttempts : Nat) (retryAt : Time) (nextAttemptId : Uuid) (db : Database) :
    Except PyError (RetryDecision × Database) :=
  if maxAttempts < 1 then .error (.valueError "max_attempts must be at least one.")
  else
    match db.getLogicalTask taskId with
    | none => .ok (.exhausted, db)
    | some _ =>
      if db.taskAttempts.any fun r => decide (r.failureEventId = some failureEventId) then .ok (.duplicate, db)
      else
        match db.getAttempt attemptId with
        | none => .error (attemptMismatch attemptId taskId)
        | some attempt =>
          if attempt.taskId ≠ taskId then .error (attemptMismatch attemptId taskId)
          else if attempt.failureEventId.isSome ∨
              (attempt.status = .completed ∧ attempt.completionEventId ≠ some failureEventId) then
            .ok (.duplicate, db)
          else
            closeFailedAttempt attempt failureEventId errorMessage errorType failedAt maxAttempts retryAt
              nextAttemptId db

/-- The row of a task's first attempt. -/
def initialAttempt (attemptId taskId : Uuid) (startedAt : Time) : TaskAttemptRecord :=
  ⟨attemptId, taskId, 1, .running, none, none, none, none, some startedAt, none, none, none, none,
    none, none, .null, none⟩

def registerInitialTask (taskId executionId : Uuid) (nodeId handler : String)
    (handlerConfig resolvedInput : Dict Json) (attemptId : Uuid) (startedAt : Time) (db : Database) :
    Except PyError (Uuid × Database) := do
  let db ← db.insertLogicalTask
    ⟨taskId, executionId, nodeId, handler, handlerConfig, resolvedInput, .running, none, none⟩
  match db.taskAttempts.find? fun r => decide (r.taskId = taskId ∧ r.attemptNumber = 1) with
  | some existing => return (existing.attemptId, db)
  | none =>
    let db ← db.insertAttempt (initialAttempt attemptId taskId startedAt)
    return (attemptId, db)

/-- A retry ready for publication: the task's message for the scheduled attempt. -/
def retryMessage (task : LogicalTaskRecord) (attempt : TaskAttemptRecord) : NodeTaskMessage :=
  ⟨task.taskId, attempt.attemptId, attempt.attemptNumber, task.executionId, task.nodeId, task.handler,
    task.handlerConfig, task.resolvedInput⟩

def getDueRetries (availableAt : Time) (db : Database) : List NodeTaskMessage :=
  db.logicalTasks.flatMap fun task =>
    (db.taskAttempts.filter fun a => decide (a.taskId = task.taskId ∧ a.status = .scheduled)).flatMap fun a =>
      (db.taskRetryDispatches.filter fun d => decide (d.attemptId = a.attemptId ∧ d.status = .pending ∧
        d.availableAt ≤ availableAt)).map fun _ => retryMessage task a

def markRetryPublished (attemptId : Uuid) (publishedAt : Time) (db : Database) : Bool × Database :=
  let selected := fun r : TaskRetryDispatchRecord => decide (r.attemptId = attemptId ∧ r.status = .pending)
  if db.taskRetryDispatches.any selected then
    (true,
      { db with
        taskRetryDispatches := (Table.updateWhere selected
          (fun r => { r with status := .published, publishedAt := some publishedAt }) db.taskRetryDispatches)
        taskAttempts := (Table.updateWhere (fun r => decide (r.attemptId = attemptId ∧ r.status = .scheduled))
          (fun r => { r with status := .queued }) db.taskAttempts) })
  else (false, db)

/-! ## Worker processing of attempts -/

inductive TaskClaimOutcome where
  | claimed | alreadyCompleted | currentlyClaimed | resultRecorded
  deriving DecidableEq, Repr

/-- `attempt.claimed_by is not None` and the lease is open-ended or still runs at `now`. -/
def heldAt (attempt : TaskAttemptRecord) (now : Time) : Bool :=
  attempt.claimedBy.isSome && attempt.claimExpiresAt.all fun t => decide (now < t)

def claimAttempt (attemptId taskId executionId : Uuid) (nodeId workerId : String)
    (claimedAt claimExpiresAt : Time) (db : Database) : Except PyError (TaskClaimOutcome × Database) :=
  match db.getAttempt attemptId with
  | none => .error (.valueError ("Attempt '" ++ attemptId.str ++ "' was not found."))
  | some attempt =>
    if (db.getLogicalTask taskId).all fun task => decide (attempt.taskId ≠ taskId ∨
        task.executionId ≠ executionId ∨ task.nodeId ≠ nodeId) then
      .error (.valueError ("Attempt '" ++ attemptId.str ++ "' does not match task '" ++ taskId.str ++ "'."))
    else if attempt.status = .completed then .ok (.alreadyCompleted, db)
    else if attempt.status = .resultRecorded then .ok (.resultRecorded, db)
    else if heldAt attempt claimedAt then .ok (.currentlyClaimed, db)
    else .ok (.claimed, db.updateAttempt attemptId fun r =>
      { r with
        status := .claimed
        claimedBy := some workerId
        claimedAt := some claimedAt
        claimExpiresAt := some claimExpiresAt })

def recordResult (attemptId eventId : Uuid) (resultData : Json) (errorMessage errorType : Option String)
    (db : Database) : Except PyError Database :=
  let selected := fun r : TaskAttemptRecord => decide (r.attemptId = attemptId ∧ r.status = .claimed)
  if db.taskAttempts.any selected then
    .ok { db with taskAttempts := Table.updateWhere selected (fun r =>
      { r with
        status := .resultRecorded
        resultData := resultData
        errorMessage := errorMessage
        errorType := errorType
        completionEventId := some eventId }) db.taskAttempts }
  else .error (.valueError ("Attempt '" ++ attemptId.str ++ "' is not available to record a result."))

structure TaskProcessingResult where
  eventId : Uuid
  resultData : Json
  errorMessage : Option String
  errorType : Option String
  deriving DecidableEq, Repr

def getResult (attemptId : Uuid) (db : Database) : Except PyError TaskProcessingResult :=
  match db.getAttempt attemptId with
  | none => .error .persistence
  | some attempt =>
    match attempt.completionEventId with
    | none => .error (.valueError ("Attempt '" ++ attemptId.str ++ "' has no completion event to replay."))
    | some eventId => .ok ⟨eventId, attempt.resultData, attempt.errorMessage, attempt.errorType⟩

def markCompleted (attemptId : Uuid) (completedAt : Time) (db : Database) : Except PyError Database :=
  let selected := fun r : TaskAttemptRecord => decide (r.attemptId = attemptId ∧ r.status = .resultRecorded)
  if db.taskAttempts.any selected then
    .ok { db with taskAttempts := Table.updateWhere selected (fun r =>
      { r with
        status := .completed
        completedAt := some completedAt
        completionPublishedAt := some completedAt
        claimExpiresAt := none }) db.taskAttempts }
  else .error (.valueError ("Attempt '" ++ attemptId.str ++ "' is not available to mark completed."))

def renewClaim (attemptId : Uuid) (workerId : String) (claimExpiresAt : Time) (db : Database) : Bool × Database :=
  let selected := fun r : TaskAttemptRecord =>
    decide (r.attemptId = attemptId ∧ r.status = .claimed ∧ r.claimedBy = some workerId)
  (db.taskAttempts.any selected,
    { db with taskAttempts := (Table.updateWhere selected
        (fun r => { r with claimExpiresAt := some claimExpiresAt }) db.taskAttempts) })

end Database

end WorkflowEngine
