import WorkflowEngine.Lib.Consumer
import WorkflowEngine.Guarantees
import WorkflowEngine.Workers

/-!
# The consumers of the orchestrator

`consume_once` of both consumers as the orchestrator's loop runs it: up to 100 entries of
flat text fields, decoded, processed, dispatched and acknowledged one after the other. The
clock, fresh identifiers, what other processes commit in between and every call that can fail
belong to the surroundings, so an exception may leave the loop at any point.
-/
namespace WorkflowEngine

/-- The conversions between text and values; a missing value is a `ValueError`. -/
structure Text where
  str : Uuid → String
  uuid : String → Option Uuid
  int : String → Option Int
  loads : String → Option Json
  dumps : Json → String

/-! ## Stream fields -/

/-- `required_field`. -/
def requiredField (fields : Dict String) (fieldName messageType : String) : Except PyError String :=
  match fields.get? fieldName with
  | none => .error (.valueError (messageType ++ " field '" ++ fieldName ++ "' is required."))
  | some value =>
    if blank value then .error (.valueError (messageType ++ " field '" ++ fieldName ++ "' is required."))
    else .ok value

/-- `json_value_field`; what `loads` returns is a JSON value. It raises `JSONDecodeError` only: the limits
of the interpreter are left out, an int of over 4300 digits (another `ValueError`) and the depth of
nesting (`RecursionError`). -/
def jsonValueField (text : Text) (fields : Dict String) (fieldName messageType : String) : Except PyError Json := do
  let serialized ← requiredField fields fieldName messageType
  match text.loads serialized with
  | none => .error (.valueError (messageType ++ " field '" ++ fieldName ++ "' must contain JSON."))
  | some value => return value

def jsonObjectField (text : Text) (fields : Dict String) (fieldName messageType : String) :
    Except PyError (Dict Json) := do
  match ← jsonValueField text fields fieldName messageType with
  | .obj members => return members
  | _ => .error (.valueError (messageType ++ " field '" ++ fieldName ++ "' must contain a JSON object."))

def Text.parseUuid (text : Text) (value : String) : Except PyError Uuid :=
  match text.uuid value with
  | none => .error (.valueError "badly formed hexadecimal UUID string")
  | some u => .ok u

def Text.parseInt (text : Text) (value : String) : Except PyError Int :=
  match text.int value with
  | none => .error (.valueError ("invalid literal for int() with base 10: '" ++ value ++ "'"))
  | some n => .ok n

def TaskCompletionStatus.parse (value : String) : Except PyError TaskCompletionStatus :=
  if value = TaskCompletionStatus.completed.value then .ok .completed
  else if value = TaskCompletionStatus.failed.value then .ok .failed
  else .error (.valueError ("'" ++ value ++ "' is not a valid TaskCompletionStatus"))

/-- The identifier with this text. Only the text of the node's own task id passes `process`. -/
def taskIdOf (text : Text) (executionId : Uuid) (nodeId value : String) : Uuid :=
  if value = text.str (createTaskId executionId nodeId) then createTaskId executionId nodeId else .const value

namespace TaskCompletionEvent

def messageType : String := "Task completion event"

def toStreamFields (text : Text) (event : TaskCompletionEvent) : Except PyError (Dict String) :=
  let fields : Dict String := [("message_id", text.str event.eventId), ("event_id", text.str event.eventId),
    ("task_id", text.str event.taskId), ("attempt_id", text.str event.attemptId),
    ("attempt_number", toString event.attemptNumber), ("execution_id", text.str event.executionId),
    ("node_id", event.nodeId), ("status", event.status.value)]
  match event.status with
  | .completed => .ok (fields ++ [("output_data", text.dumps event.outputData)])
  | .failed =>
    match event.errorMessage, event.errorType with
    | some message, some type => .ok (fields ++ [("error_message", message), ("error_type", type)])
    | _, _ => .error (.valueError "Failed task completion events require error information.")

/-- `fields.get("message_id") or required_field(fields, "event_id", ..)`. -/
def eventIdField (fields : Dict String) : Except PyError String :=
  match fields.get? "message_id" with
  | none => requiredField fields "event_id" messageType
  | some value => if value = "" then requiredField fields "event_id" messageType else .ok value

def fromStreamFields (text : Text) (fields : Dict String) : Except PyError TaskCompletionEvent := do
  let eventId ← text.parseUuid (← eventIdField fields)
  let taskId ← requiredField fields "task_id" messageType
  let attemptId ← text.parseUuid (← requiredField fields "attempt_id" messageType)
  let attemptNumber ← text.parseInt (← requiredField fields "attempt_number" messageType)
  let executionId ← text.parseUuid (← requiredField fields "execution_id" messageType)
  let nodeId ← requiredField fields "node_id" messageType
  let status ← TaskCompletionStatus.parse (← requiredField fields "status" messageType)
  match status with
  | .completed =>
    let outputData ← jsonValueField text fields "output_data" messageType
    return ⟨eventId, taskIdOf text executionId nodeId taskId, attemptId, attemptNumber, executionId, nodeId, status,
      outputData, none, none⟩
  | .failed =>
    let errorMessage ← requiredField fields "error_message" messageType
    let errorType ← requiredField fields "error_type" messageType
    return ⟨eventId, taskIdOf text executionId nodeId taskId, attemptId, attemptNumber, executionId, nodeId, status,
      .null, some errorMessage, some errorType⟩

/-- The same event, its output equal as a Python value. -/
structure SameEvent (event event' : TaskCompletionEvent) : Prop where
  eventId : event.eventId = event'.eventId
  taskId : event.taskId = event'.taskId
  attemptId : event.attemptId = event'.attemptId
  attemptNumber : event.attemptNumber = event'.attemptNumber
  executionId : event.executionId = event'.executionId
  nodeId : event.nodeId = event'.nodeId
  status : event.status = event'.status
  outputData : Json.Same event.outputData event'.outputData
  errorMessage : event.errorMessage = event'.errorMessage
  errorType : event.errorType = event'.errorType

/-- An event without an output is the same as itself only. -/
theorem SameEvent.eq_of_null {event event' : TaskCompletionEvent} (h : SameEvent event' event)
    (hnull : event.outputData = .null) : event' = event := by
  have houtput := h.outputData
  rw [hnull] at houtput
  cases event
  cases event'
  obtain ⟨rfl, rfl, rfl, rfl, rfl, rfl, rfl, -, rfl, rfl⟩ := h
  cases hnull
  cases houtput.eq_null
  rfl

/-- The texts of the event's values can be read back; `dumps` sorts the keys of the output, so what `loads`
returns is equal as a Python value. -/
structure Lossless (text : Text) (event : TaskCompletionEvent) : Prop where
  uuid : ∀ u ∈ [event.eventId, event.attemptId, event.executionId], text.uuid (text.str u) = some u
  str : ∀ u ∈ [event.eventId, event.taskId, event.attemptId, event.executionId], blank (text.str u) = false
  int : text.int (toString event.attemptNumber) = some event.attemptNumber
  number : blank (toString event.attemptNumber) = false
  loads : ∃ v, text.loads (text.dumps event.outputData) = some v ∧ Json.Same v event.outputData
  dumps : blank (text.dumps event.outputData) = false

/-- Without an output there is nothing to reorder. -/
theorem exists_sameEvent_iff {x : Except PyError TaskCompletionEvent} {event : TaskCompletionEvent}
    (hnull : event.outputData = .null) : (∃ event', x = .ok event' ∧ SameEvent event' event) ↔ x = .ok event := by
  constructor
  · rintro ⟨event', hx, hsame⟩
    rw [hx, hsame.eq_of_null hnull]
  · exact fun hx => ⟨event, hx, rfl, rfl, rfl, rfl, rfl, rfl, rfl, rfl, rfl, rfl⟩

/-- What a worker publishes comes back as it was exactly when none of its texts is blank. -/
theorem fromStreamFields_toStreamFields {text : Text} {event : TaskCompletionEvent} (hbuilt : event.Built)
    (htask : event.taskId = createTaskId event.executionId event.nodeId) (h : event.Lossless text) :
    (∃ event', (event.toStreamFields text).bind (fromStreamFields text) = .ok event' ∧ SameEvent event' event) ↔
      System.readable event = true := by
  obtain ⟨eventId, taskId, attemptId, attemptNumber, executionId, nodeId, status, output, errorMessage, errorType⟩ :=
    event
  obtain ⟨huuid, hstr, hint, hnum, ⟨v, hloads, hsame⟩, hdumps⟩ := h
  simp only [List.mem_cons, List.not_mem_nil, or_false, forall_eq_or_imp, forall_eq] at huuid hstr
  obtain ⟨hu₁, hu₂, hu₃⟩ := huuid
  obtain ⟨hs₁, hs₂, hs₃, hs₄⟩ := hstr
  have hne : ∀ {t : String}, blank t = false → t ≠ "" := by
    rintro t ht rfl
    cases ht
  replace hint : text.int attemptNumber.repr = some attemptNumber := hint
  replace hnum : blank attemptNumber.repr = false := hnum
  have hcompleted : blank "completed" = false := by decide
  have hfailed : blank "failed" = false := by decide
  dsimp only at *
  cases hbuilt with
  | completed hs hm ht =>
    dsimp only at hs hm ht
    subst hs hm ht htask
    cases hn : blank nodeId with
    | true =>
      simp [toStreamFields, fromStreamFields, bind, Except.bind, eventIdField, requiredField, Dict.get?,
        Text.parseUuid, Text.parseInt, hu₁, hu₂, hu₃, hs₂, hs₃, hs₄, hint, hnum, hne hs₁, System.readable, hn]
    | false =>
      refine ⟨fun _ => by simp [System.readable, hn], fun _ => ⟨⟨eventId, createTaskId executionId nodeId, attemptId,
        attemptNumber, executionId, nodeId, .completed, v, none, none⟩, ?_,
        ⟨rfl, rfl, rfl, rfl, rfl, rfl, rfl, hsame, rfl, rfl⟩⟩⟩
      simp [toStreamFields, fromStreamFields, bind, pure, Except.pure, Except.bind, eventIdField, requiredField,
        Dict.get?, Text.parseUuid, Text.parseInt, hu₁, hu₂, hu₃, hs₂, hs₃, hs₄, hint, hnum, hne hs₁, jsonValueField,
        hloads, hdumps, TaskCompletionStatus.parse, TaskCompletionStatus.value, taskIdOf, hn, hcompleted]
  | @failed message type hs ho hm ht =>
    dsimp only at hs ho hm ht
    subst hs ho hm ht htask
    rw [exists_sameEvent_iff rfl]
    cases hn : blank nodeId <;> cases hb : blank message <;> cases hb' : blank type <;>
      simp [toStreamFields, fromStreamFields, bind, pure, Except.pure, Except.bind, eventIdField, requiredField,
        Dict.get?, Text.parseUuid, Text.parseInt, hu₁, hu₂, hu₃, hs₂, hs₃, hs₄, hint, hnum, hne hs₁, System.readable,
        TaskCompletionStatus.parse, TaskCompletionStatus.value, taskIdOf, hn, hfailed, hb, hb']

end TaskCompletionEvent

/-! ## Handling one entry -/

/-- What surrounds the handling of one entry, for each of its transactions: the clock, the
identifier drawn, what others have committed before it, and whether the database refuses it. -/
structure Surroundings where
  now : Nat → Time
  drawn : Nat → Uuid
  meanwhile : Nat → Database → Database
  refused : Nat → Bool
  /-- The order in which the transactions of one `gather` commit. -/
  order : List WorkflowNode → List WorkflowNode
  order_perm : ∀ nodes, (order nodes).Perm nodes

/-- Calls that commit to the database or raise. -/
abbrev Orchestrator := ExceptT PyError (StateM Database)

namespace Orchestrator

/-- One transaction: what it commits, or an exception that rolls it back. -/
def transaction {β : Type} (env : Surroundings) (k : Nat) (body : Database → Except PyError (β × Database)) :
    Orchestrator β := do
  modify (env.meanwhile k)
  if env.refused k then throw .persistence
  match body (← get) with
  | .ok (result, db) => do
    set db
    return result
  | .error e => throw e

def dispatchMany (cfg : Config) (env : Surroundings) (x : WorkflowExecutionRecord) :
    List WorkflowNode → Nat → Orchestrator Unit
  | [], _ => return
  | n :: rest, k => do
    let _ ← transaction env k (dispatch cfg.strFloat x n (env.drawn k) (env.now k))
    dispatchMany cfg env x rest (k + 1)

/-- `dispatch_ready`. -/
def dispatchReady (cfg : Config) (env : Surroundings) (executionId : Uuid) (ready : List String) :
    Orchestrator Unit := do
  if ready.isEmpty then return
  let (x, nodes) ← transaction env 1 fun db => (readyNodes executionId ready db).map (·, db)
  dispatchMany cfg env x (env.order nodes) 2

/-- The body of the loop in `TaskCompletionConsumer.consume_once`, up to the acknowledgement. -/
def completionEntry (cfg : Config) (text : Text) (env : Surroundings) (fields : Dict String) : Orchestrator Unit := do
  let event ← liftExcept (TaskCompletionEvent.fromStreamFields text fields)
  let decision ← transaction env 0 (process cfg.policy event (env.drawn 0) (env.now 0))
  dispatchReady cfg env event.executionId decision.readyNodeIds

def executionTriggeredEventType : String := "workflow.execution.triggered"

/-- `WorkflowTriggerConsumer._execution_id`. -/
def executionIdField (text : Text) (fields : Dict String) : Except PyError Uuid := do
  let eventType ← requiredField fields "event_type" "Workflow event"
  if eventType ≠ executionTriggeredEventType then
    throw (.valueError ("Unsupported workflow event type '" ++ eventType ++ "'."))
  let payload ← jsonObjectField text fields "payload" "Workflow event"
  match payload.get? "execution_id" with
  | some (.str value) =>
    match text.uuid value with
    | some executionId => return executionId
    | none => throw (.valueError "Workflow event payload execution_id must be a UUID.")
  | _ => throw (.valueError "Workflow event payload requires a string execution_id.")

/-- The body of the loop in `WorkflowTriggerConsumer.consume_once`, up to the acknowledgement. -/
def triggerEntry (cfg : Config) (text : Text) (env : Surroundings) (fields : Dict String) : Orchestrator Unit := do
  let eventType ← liftExcept (requiredField fields "event_type" "Workflow event")
  if eventType ≠ executionTriggeredEventType then return
  let executionId ← liftExcept (executionIdField text fields)
  let ready ← transaction env 0 fun db => (evaluateReadiness executionId db).map (·, db)
  dispatchReady cfg env executionId ready

def handleEntry (source : Source) (cfg : Config) (text : Text) (env : Nat → Surroundings) (i : Nat)
    (fields : Dict String) (db : Database) : Except PyError Unit × Database :=
  match source with
  | .trigger => (triggerEntry cfg text (env i) fields).run.run db
  | .completion => (completionEntry cfg text (env i) fields).run.run db

/-- `consume_once` of either consumer: one read of at most 100 entries, and the loop over them. -/
def consumeOnce (source : Source) (cfg : Config) (text : Text) (env : Nat → Surroundings) (ack : Nat → AckFate)
    (consumer : String) (now : Time) (db : Database) (stream : GroupStream (Dict String)) :
    Consumed (Dict String) Database PyError :=
  Consumer.consumeOnce (handleEntry source cfg text env) ack .redisError consumer now 100 db stream

/-- Every entry of the batch is acknowledged after it was processed, or delivered again by a later
read, exactly when no call raises: neither decoding nor a transaction of any entry, nor any
acknowledgement but that of the last one after the server has it. -/
theorem batch_recovered_iff (source : Source) (cfg : Config) (text : Text) (env : Nat → Surroundings)
    (ack : Nat → AckFate) (consumer : String) (now : Time) (db : Database) (stream : GroupStream (Dict String)) :
    (∀ m ∈ stream.batch 100, Consumer.Recovered (consumeOnce source cfg text env ack consumer now db stream) m.2) ↔
      Consumer.Undisturbed (handleEntry source cfg text env) ack (stream.batch 100) db :=
  Consumer.consumeOnce_recovered_iff

/-- A stand-in for the text conversions on the entries below. -/
def sampleText : Text where
  str := Uuid.str
  uuid := fun value => if value.length = 36 then some (.const value) else none
  int := fun value => if value = "1" then some 1 else none
  loads := fun _ => none
  dumps := fun _ => ""

def undisturbed : Surroundings := ⟨fun _ => 0, .v4, fun _ db => db, fun _ => false, fun nodes => nodes, fun _ => .rfl⟩

/-- The completion a worker publishes for a handler that has raised with this message. -/
def failureFields (message : String) : Dict String :=
  [("message_id", "0b4e1f0e-7c57-4a53-9d0f-6a1f4b0c2d11"), ("event_id", "0b4e1f0e-7c57-4a53-9d0f-6a1f4b0c2d11"),
    ("task_id", "a4c5a1de-5f7b-5f39-8f6b-3d2c1b0a9f8e"), ("attempt_id", "5e2f8b1c-3d4a-4b6c-8e9f-0a1b2c3d4e5f"),
    ("attempt_number", "1"), ("execution_id", "9d8c7b6a-5f4e-4d3c-9b2a-1f0e9d8c7b6a"), ("node_id", "fetch"),
    ("status", "failed"), ("error_message", message), ("error_type", "ValueError")]

/-- `raise ValueError()` and then another failure. -/
def blankThenBoom : GroupStream (Dict String) := ⟨[failureFields "", failureFields "boom"], 0, []⟩

theorem batch_recovered_blank_message :
    ¬ ∀ m ∈ blankThenBoom.batch 100, Consumer.Recovered (consumeOnce .completion System.sampleConfig sampleText
      (fun _ => undisturbed) (fun _ => .returned) "orchestrator" 0 .empty blankThenBoom) m.2 := by
  rw [consumeOnce, Consumer.consumeOnce_recovered_iff]
  decide +kernel

end Orchestrator

end WorkflowEngine
