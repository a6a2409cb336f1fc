import WorkflowEngine.Lib.Stream
import WorkflowEngine.Lib.Transition
import WorkflowEngine.Services

/-!
# The running system

Database, streams and every process between two of its steps. An API request holds the
execution it has read, an orchestrator holds ready sets and due retries in memory, a worker
holds one in-flight record per delivered task. One action is one transaction, one stream
command or one local step, so any number of orchestrators and workers interleave freely; a
call that raises leaves the database as it was and ends its handling.
-/
namespace WorkflowEngine

structure Config where
  validation : ValidationEnv
  strFloat : Rat → String
  policy : RetryPolicy
  lease : Time
  reclaimIdle : Time
  lease_pos : 0 < lease
  lease_lt_reclaimIdle : lease < reclaimIdle

/-- A trigger request that has read its execution as pending. -/
structure TriggerRequest where
  execution : WorkflowExecutionRecord
  inputData : Option (Dict Json)
  deriving DecidableEq, Repr

/-- What `workflow.events` carries of an outbox row. -/
structure LifecycleEvent where
  eventId : Uuid
  eventType : MessageType
  payload : OutboxPayload
  deriving DecidableEq, Repr

inductive Source where
  | trigger | completion
  deriving DecidableEq, Repr

/-- How far `consume_once` has come with one entry. After a dispatch has raised, the others of
the same `gather` may still run, but the entry is never acknowledged. -/
inductive HandlingPhase where
  | received
  | evaluated (executionId : Uuid) (readyNodeIds : List String)
  | dispatching (execution : WorkflowExecutionRecord) (nodes : List WorkflowNode)
  | raised (execution : WorkflowExecutionRecord) (nodes : List WorkflowNode)
  | dispatched
  deriving DecidableEq, Repr

structure Handling where
  source : Source
  index : Nat
  phase : HandlingPhase
  deriving DecidableEq, Repr

/-- How far `WorkerTaskProcessor.process` has come with one task. -/
inductive TaskPhase where
  | received
  | claimed
  | executing (renewalFailed : Bool)
  | executed (event : TaskCompletionEvent)
  | replaying
  | recorded (event : TaskCompletionEvent)
  | published (event : TaskCompletionEvent)
  | acknowledging
  deriving DecidableEq, Repr

structure InFlight where
  worker : String
  index : Nat
  task : NodeTaskMessage
  phase : TaskPhase
  deriving DecidableEq, Repr

/-- Milestones of a run, in order. They are read by no step. -/
inductive Milestone where
  | triggered (executionId : Uuid) (inputData : Option (Dict Json))
  | nodeClaimed (executionId : Uuid) (nodeId : String)
  | handlerInvoked (attemptId : Uuid)
  | resultRecorded (event : TaskCompletionEvent)
  | completionPublished (event : TaskCompletionEvent)
  deriving DecidableEq, Repr

structure System where
  db : Database
  now : Time
  draws : Nat
  triggers : List TriggerRequest
  events : GroupStream LifecycleEvent
  tasks : GroupStream NodeTaskMessage
  completions : GroupStream TaskCompletionEvent
  handlings : List Handling
  inFlight : List InFlight
  outboxSent : List Uuid
  retriesDue : List NodeTaskMessage
  retriesSent : List Uuid
  history : List Milestone
  deriving DecidableEq, Repr

namespace System

def init : System :=
  ⟨.empty, 0, 0, [], .empty, .empty, .empty, [], [], [], [], [], []⟩

/-! ## API requests -/

def submitDefinition (cfg : Config) (s : System) (definition : Dict Json) : Option System :=
  match submit cfg.validation definition (.v4 s.draws) (.v4 (s.draws + 1)) s.now s.db with
  | .ok db => some { s with db := db, draws := s.draws + 2 }
  | .error _ => none

def readTrigger (s : System) (executionId : Uuid) (inputData : Option (Dict Json)) : Option System :=
  match WorkflowEngine.triggerRead executionId s.db with
  | .ok x => some { s with triggers := s.triggers ++ [⟨x, inputData⟩] }
  | .error _ => none

def commitTrigger (s : System) (k : Nat) : Option System :=
  match s.triggers[k]? with
  | none => none
  | some t =>
    let s := { s with triggers := s.triggers.eraseIdx k }
    match WorkflowEngine.triggerCommit t.execution t.inputData (.v4 s.draws) s.now s.db with
    | .ok db => some
        { s with
          db := db
          draws := s.draws + 1
          history := s.history ++ [.triggered t.execution.executionId t.inputData] }
    | .error _ => some s

/-! ## Outbox publisher -/

/-- The stream entry of one outbox row. -/
def deliverRow (s : System) (row : OutboxEventRecord) : System :=
  match row.targetStream, row.payload with
  | .tasks, .task message => { s with tasks := s.tasks.xadd message }
  | .events, payload => { s with events := s.events.xadd ⟨row.messageId, row.messageType, payload⟩ }
  | _, _ => s

/-- `publish` of one selected row, before the batch is committed. -/
def publishRow (s : System) (messageId : Uuid) : Option System :=
  match s.db.outboxEvents.find? fun r => decide (r.messageId = messageId ∧ r.status = .pending) with
  | none => none
  | some row => some { s.deliverRow row with outboxSent := s.outboxSent ++ [messageId] }

/-- The commit that marks a published row. -/
def markRow (s : System) (messageId : Uuid) : Option System :=
  if messageId ∈ s.outboxSent then
    some { s with db := { s.db with outboxEvents := (Table.updateWhere
      (fun r => decide (r.messageId = messageId ∧ r.status = .pending))
      (fun r => { r with
        status := .published
        publishedAt := some s.now
        publishAttempts := r.publishAttempts + 1
        lastError := none }) s.db.outboxEvents) } }
  else none

/-- `cleanup_published` of one row. -/
def cleanRow (s : System) (messageId : Uuid) : Option System :=
  some { s with db := { s.db with outboxEvents := (s.db.outboxEvents.filter
    fun r => !decide (r.messageId = messageId ∧ r.status = .published)) } }

/-! ## Orchestrator consumers -/

def deliverEvent (s : System) (consumer : String) : Option System :=
  (s.events.xreadgroup consumer s.now).map fun m =>
    { s with events := m.2.2, handlings := s.handlings ++ [⟨.trigger, m.1, .received⟩] }

def deliverCompletion (s : System) (consumer : String) : Option System :=
  (s.completions.xreadgroup consumer s.now).map fun m =>
    { s with completions := m.2.2, handlings := s.handlings ++ [⟨.completion, m.1, .received⟩] }

/-- A delivered entry comes again. -/
def redeliver (s : System) (source : Source) (index : Nat) : Option System :=
  let delivered := match source with
    | .trigger => s.events.lastDelivered
    | .completion => s.completions.lastDelivered
  if index < delivered then some { s with handlings := s.handlings ++ [⟨source, index, .received⟩] } else none

/-- `required_field` on what a worker has written: no field of the event is blank. -/
def readable (event : TaskCompletionEvent) : Bool :=
  !blank event.nodeId && match event.status with
    | .completed => true
    | .failed => event.errorMessage.any (fun t => !blank t) && event.errorType.any fun t => !blank t

/-- Handle a trigger entry: readiness is evaluated from committed state. -/
def handleTrigger (s : System) (k : Nat) (h : Handling) : Option System :=
  match s.events.entries[h.index]? with
  | none => none
  | some entry =>
    match entry.eventType, entry.payload with
    | .executionTriggered, .execution executionId =>
      match evaluateReadiness executionId s.db with
      | .ok ready => some { s with handlings := s.handlings.set k { h with phase := .evaluated executionId ready } }
      | .error _ => some { s with handlings := s.handlings.eraseIdx k }
    | _, _ => some { s with handlings := s.handlings.set k { h with phase := .dispatched } }

/-- Handle a completion entry: decode it and process it in one transaction. -/
def handleCompletion (cfg : Config) (s : System) (k : Nat) (h : Handling) : Option System :=
  match s.completions.entries[h.index]? with
  | none => none
  | some event =>
    if readable event then
      match process cfg.policy event (.v4 s.draws) s.now s.db with
      | .ok (decision, db) => some
          { s with
            db := db
            draws := s.draws + 1
            handlings := s.handlings.set k { h with phase := .evaluated event.executionId decision.readyNodeIds } }
      | .error _ => some { s with handlings := s.handlings.eraseIdx k }
    else some { s with handlings := s.handlings.eraseIdx k }

def handle (cfg : Config) (s : System) (k : Nat) : Option System :=
  match s.handlings[k]? with
  | some ⟨.trigger, index, .received⟩ => s.handleTrigger k ⟨.trigger, index, .received⟩
  | some ⟨.completion, index, .received⟩ => s.handleCompletion cfg k ⟨.completion, index, .received⟩
  | _ => none

/-- The read transaction of `dispatch_ready`, skipped for an empty ready set. -/
def readReady (s : System) (k : Nat) : Option System :=
  match s.handlings[k]? with
  | some ⟨source, index, .evaluated executionId ready⟩ =>
    if ready.isEmpty then some { s with handlings := s.handlings.set k ⟨source, index, .dispatched⟩ }
    else
      match readyNodes executionId ready s.db with
      | .ok (x, nodes) => some { s with handlings := s.handlings.set k ⟨source, index, .dispatching x nodes⟩ }
      | .error _ => some { s with handlings := s.handlings.eraseIdx k }
  | _ => none

/-- Whether the persisted status of the node has gone from pending to running. -/
def newlyRunning (db db' : Database) (executionId : Uuid) (nodeId : String) : Bool :=
  decide (statusMap (db.getNodeExecutionsForExecution executionId) nodeId = some .pending ∧
    statusMap (db'.getNodeExecutionsForExecution executionId) nodeId = some .running)

/-- One of the concurrent dispatch transactions of a handling. -/
def dispatchNode (cfg : Config) (s : System) (k j : Nat) : Option System :=
  match s.handlings[k]? with
  | none => none
  | some h =>
    match h.phase with
    | .dispatching x nodes =>
      match nodes[j]? with
      | none => none
      | some node =>
        match dispatch cfg.strFloat x node (.v4 s.draws) s.now s.db with
        | .ok (_, db) => some
            { s with
              db := db
              draws := s.draws + 1
              handlings := s.handlings.set k { h with phase := .dispatching x (nodes.eraseIdx j) }
              history := s.history ++
                if newlyRunning s.db db x.executionId node.id then [.nodeClaimed x.executionId node.id] else [] }
        | .error _ => some { s with handlings := s.handlings.set k { h with phase := .raised x (nodes.eraseIdx j) } }
    | .raised x nodes =>
      match nodes[j]? with
      | none => none
      | some node =>
        match dispatch cfg.strFloat x node (.v4 s.draws) s.now s.db with
        | .ok (_, db) => some
            { s with
              db := db
              draws := s.draws + 1
              handlings := s.handlings.set k { h with phase := .raised x (nodes.eraseIdx j) }
              history := s.history ++
                if newlyRunning s.db db x.executionId node.id then [.nodeClaimed x.executionId node.id] else [] }
        | .error _ => some { s with handlings := s.handlings.set k { h with phase := .raised x (nodes.eraseIdx j) } }
    | _ => none

/-- `gather` has returned. -/
def finishDispatch (s : System) (k : Nat) : Option System :=
  match s.handlings[k]? with
  | some ⟨source, index, .dispatching _ []⟩ =>
    some { s with handlings := s.handlings.set k ⟨source, index, .dispatched⟩ }
  | _ => none

def acknowledge (s : System) (k : Nat) : Option System :=
  match s.handlings[k]? with
  | some ⟨.trigger, index, .dispatched⟩ =>
    some { s with events := s.events.xack index, handlings := s.handlings.eraseIdx k }
  | some ⟨.completion, index, .dispatched⟩ =>
    some { s with completions := s.completions.xack index, handlings := s.handlings.eraseIdx k }
  | _ => none

/-- The orchestrator stops here: a crash, or the end of a handling that has raised. -/
def abandon (s : System) (k : Nat) : Option System :=
  if k < s.handlings.length then some { s with handlings := s.handlings.eraseIdx k } else none

/-! ## Retry publication -/

def readRetries (s : System) : Option System :=
  some { s with retriesDue := s.retriesDue ++ s.db.getDueRetries s.now }

def publishRetry (s : System) (j : Nat) : Option System :=
  (s.retriesDue[j]?).map fun message =>
    { s with tasks := s.tasks.xadd message, retriesSent := s.retriesSent ++ [message.attemptId] }

def markRetry (s : System) (attemptId : Uuid) : Option System :=
  if attemptId ∈ s.retriesSent then some { s with db := (s.db.markRetryPublished attemptId s.now).2 } else none

/-! ## Workers -/

def deliverTask (s : System) (worker : String) : Option System :=
  (s.tasks.xreadgroup worker s.now).map fun m =>
    { s with tasks := m.2.2, inFlight := s.inFlight ++ [⟨worker, m.1, m.2.1, .received⟩] }

/-- `XAUTOCLAIM`, also of an entry whose handler still runs somewhere. -/
def reclaimTask (cfg : Config) (s : System) (worker : String) (index : Nat) : Option System :=
  (s.tasks.xautoclaim worker cfg.reclaimIdle s.now index).map fun m =>
    { s with tasks := m.2, inFlight := s.inFlight ++ [⟨worker, index, m.1, .received⟩] }

def setPhase (s : System) (k : Nat) (f : InFlight) (phase : TaskPhase) : System :=
  { s with inFlight := s.inFlight.set k { f with phase := phase } }

def dropInFlight (s : System) (k : Nat) : System := { s with inFlight := s.inFlight.eraseIdx k }

/-- The claim transaction and the branch on its outcome. -/
def claimTask (cfg : Config) (s : System) (k : Nat) (f : InFlight) : System :=
  match s.db.claimAttempt f.task.attemptId f.task.taskId f.task.executionId f.task.nodeId f.worker s.now
    (s.now + cfg.lease) with
  | .error _ => s.dropInFlight k
  | .ok (.claimed, db) => { s with db := db }.setPhase k f .claimed
  | .ok (.resultRecorded, db) => { s with db := db }.setPhase k f .replaying
  | .ok (.alreadyCompleted, db) => { s with db := db }.setPhase k f .acknowledging
  | .ok (.currentlyClaimed, db) => { s with db := db }.setPhase k f .acknowledging

inductive HandlerOutcome where
  | success (output : Json)
  | failure (message errorType : String)
  deriving DecidableEq, Repr

/-- The completion event built from a handler's result or exception. -/
def completionEvent (task : NodeTaskMessage) (eventId : Uuid) : HandlerOutcome → TaskCompletionEvent
  | .success output => ⟨eventId, task.taskId, task.attemptId, task.attemptNumber, task.executionId,
      task.nodeId, .completed, output, none, none⟩
  | .failure message errorType => ⟨eventId, task.taskId, task.attemptId, task.attemptNumber, task.executionId,
      task.nodeId, .failed, .null, some message, some errorType⟩

/-- `_event_from_result`. -/
def eventFromResult (task : NodeTaskMessage) (r : Database.TaskProcessingResult) :
    Except PyError TaskCompletionEvent :=
  match r.errorMessage, r.errorType with
  | none, none => .ok (completionEvent task r.eventId (.success r.resultData))
  | some message, some errorType => .ok (completionEvent task r.eventId (.failure message errorType))
  | _, _ => .error (.valueError "Persisted failed task results require error information.")

/-- One tick of `_renew_claim_until_complete` beside a running handler. As in a claim, the clock is read in
the step of the transaction. -/
def renewTask (cfg : Config) (s : System) (k : Nat) (f : InFlight) : System :=
  let r := s.db.renewClaim f.task.attemptId f.worker (s.now + cfg.lease)
  { s with db := r.2 }.setPhase k f (.executing !r.1)

/-- The handler ends. A renewal that has failed raises here, before anything is recorded. -/
def finishTask (s : System) (k : Nat) (f : InFlight) (renewalFailed : Bool) (outcome : HandlerOutcome) : System :=
  if renewalFailed then s.dropInFlight k
  else { s with draws := s.draws + 1 }.setPhase k f (.executed (completionEvent f.task (.v4 s.draws) outcome))

def recordTask (s : System) (k : Nat) (f : InFlight) (event : TaskCompletionEvent) : System :=
  match s.db.recordResult event.attemptId event.eventId event.outputData event.errorMessage event.errorType with
  | .ok db =>
    { s with db := db, history := s.history ++ [Milestone.resultRecorded event] }.setPhase k f (.recorded event)
  | .error _ => s.dropInFlight k

def replayTask (s : System) (k : Nat) (f : InFlight) : System :=
  match (s.db.getResult f.task.attemptId).bind (eventFromResult f.task) with
  | .ok event => s.setPhase k f (.recorded event)
  | .error _ => s.dropInFlight k

def publishTask (s : System) (k : Nat) (f : InFlight) (event : TaskCompletionEvent) : System :=
  { s with
    completions := s.completions.xadd event
    history := s.history ++ [Milestone.completionPublished event] }.setPhase k f (.published event)

def markTask (s : System) (k : Nat) (f : InFlight) (event : TaskCompletionEvent) : System :=
  match s.db.markCompleted event.attemptId s.now with
  | .ok db => { s with db := db }.setPhase k f .acknowledging
  | .error _ => s.dropInFlight k

/-- The next step of the coroutine that processes the `k`-th in-flight task. `outcome` is what
the handler returns or raises, used when the handler ends here. -/
def workTask (cfg : Config) (s : System) (k : Nat) (outcome : HandlerOutcome) : Option System :=
  (s.inFlight[k]?).map fun f =>
    match f.phase with
    | .received => s.claimTask cfg k f
    | .claimed =>
      { s with history := s.history ++ [Milestone.handlerInvoked f.task.attemptId] }.setPhase k f (.executing false)
    | .executing renewalFailed => s.finishTask k f renewalFailed outcome
    | .executed event => s.recordTask k f event
    | .replaying => s.replayTask k f
    | .recorded event => s.publishTask k f event
    | .published event => s.markTask k f event
    | .acknowledging => { s with tasks := s.tasks.xack f.index }.dropInFlight k

def renew (cfg : Config) (s : System) (k : Nat) : Option System :=
  match s.inFlight[k]? with
  | some ⟨worker, index, task, .executing false⟩ => some (s.renewTask cfg k ⟨worker, index, task, .executing false⟩)
  | _ => none

/-- The worker stops here: a crash, or a database or Redis error in its next call. -/
def dropTask (s : System) (k : Nat) : Option System :=
  if k < s.inFlight.length then some (s.dropInFlight k) else none

inductive Action where
  | submit (definition : Dict Json)
  | readTrigger (executionId : Uuid) (inputData : Option (Dict Json))
  | commitTrigger (k : Nat)
  | publishRow (messageId : Uuid)
  | markRow (messageId : Uuid)
  | cleanRow (messageId : Uuid)
  | deliverEvent (consumer : String)
  | deliverCompletion (consumer : String)
  | redeliver (source : Source) (index : Nat)
  | handle (k : Nat)
  | readReady (k : Nat)
  | dispatchNode (k j : Nat)
  | finishDispatch (k : Nat)
  | acknowledge (k : Nat)
  | abandon (k : Nat)
  | readRetries
  | publishRetry (j : Nat)
  | markRetry (attemptId : Uuid)
  | deliverTask (worker : String)
  | reclaimTask (worker : String) (index : Nat)
  | work (k : Nat) (outcome : HandlerOutcome)
  | renew (k : Nat)
  | dropTask (k : Nat)
  | tick (elapsed : Nat)
  deriving DecidableEq, Repr

def step (cfg : Config) (s : System) : Action → Option System
  | .submit definition => s.submitDefinition cfg definition
  | .readTrigger executionId inputData => s.readTrigger executionId inputData
  | .commitTrigger k => s.commitTrigger k
  | .publishRow messageId => s.publishRow messageId
  | .markRow messageId => s.markRow messageId
  | .cleanRow messageId => s.cleanRow messageId
  | .deliverEvent consumer => s.deliverEvent consumer
  | .deliverCompletion consumer => s.deliverCompletion consumer
  | .redeliver source index => s.redeliver source index
  | .handle k => s.handle cfg k
  | .readReady k => s.readReady k
  | .dispatchNode k j => s.dispatchNode cfg k j
  | .finishDispatch k => s.finishDispatch k
  | .acknowledge k => s.acknowledge k
  | .abandon k => s.abandon k
  | .readRetries => s.readRetries
  | .publishRetry j => s.publishRetry j
  | .markRetry attemptId => s.markRetry attemptId
  | .deliverTask worker => s.deliverTask worker
  | .reclaimTask worker index => s.reclaimTask cfg worker index
  | .work k outcome => s.workTask cfg k outcome
  | .renew k => s.renew cfg k
  | .dropTask k => s.dropTask k
  | .tick elapsed => some { s with now := s.now + elapsed }

/-- The states of runs whose steps all satisfy `allowed`. -/
abbrev Reachable (cfg : Config) (allowed : System → Action → Prop) (s : System) : Prop :=
  Transition.Reachable (step cfg) allowed init s

/-- Every run. -/
def anyStep : System → Action → Prop := fun _ _ => True

end System

end WorkflowEngine
